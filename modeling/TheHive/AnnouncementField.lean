import TheHive.Announcements

/-!
# The field of a new announcement

The text that is typed lives in the controller of the `PostsStreamPage` widget.  `ClubOutline`
builds a new one whenever its state changes, and `postMessage` clears the controller before the
outcome of its write is known.

* `fieldStep` — edits, tab changes, presses of the join, notification and post buttons, and the
  outcomes of the writes, in any order.
* `storedTimes_insert` — a post at a fresh reference is one more post with its text.
* `fieldStep_cases` — what a step does to the writes: nothing, or it issues one, or one settles.
* `keepsText_iff`, `ledger_step` — what one step does to a text of the field, and to the posts.
* `noTextLost_iff` — **in a run no typed text is lost exactly when every tab change and every
  press of the join or notification button finds the field empty, and no write that settles is
  rejected**.
* `typed_texts_lost` — a user looks at another tab; a write is rejected.
-/

set_option autoImplicit false

namespace TheHive

open DocStore Transition

/-! ## The page -/

/-- A `PostsStreamPage` widget, with the user its database object captured. -/
structure PostsStreamPage where
  user : Option User
  /-- The text of the controller. -/
  newPostController : String

namespace PostsStreamPage

/-- A new widget has a controller of its own, which is empty. -/
def create (currentUser : Option User) : PostsStreamPage := ⟨currentUser, ""⟩

/-- `newPostController.clear()`. -/
def clear (page : PostsStreamPage) : PostsStreamPage := { page with newPostController := "" }

/-- `postMessage`, with the write it issues. -/
def postMessage (page : PostsStreamPage) (auto : AutoId) (now : Timestamp) (clubName : DocId) :
    PostsStreamPage × Option Write :=
  if page.newPostController.isEmpty then (page.clear, none)
  else
    match FirestoreDatabase.addPost page.user auto now page.newPostController clubName with
    | some w => (page.clear, some w)
    -- `user!` throws before the controller is cleared
    | none => (page, none)

end PostsStreamPage

structure FieldRun where
  selectedIndex : Nat
  isNotified : Bool
  isJoined : Bool
  /-- The announcements page of the last build. -/
  posts : PostsStreamPage
  db : Db
  /-- The writes under way, each with the text it took from the field. -/
  net : List (String × Write)
  /-- The texts whose writes have settled. -/
  settled : List String

namespace FieldRun

/-- The text in the field. -/
def text (s : FieldRun) : String := s.posts.newPostController

/-- `build` constructs the three pages anew. -/
def build (currentUser : Option User) (s : FieldRun) : FieldRun :=
  { s with posts := .create currentUser }

def start (currentUser : Option User) (db : Db) : FieldRun :=
  ⟨0, false, false, .create currentUser, db, [], []⟩

/-- No document and no write under way has the reference. -/
def fresh (s : FieldRun) (p : Path) : Bool :=
  (s.db.lookup p).isNone && s.net.all fun x => x.2.path != p

end FieldRun

inductive FieldAction where
  | edit (text : String)
  | navigateBottomBar (index : Nat)
  | pressJoin (auto : AutoId)
  | pressNotify
  | pressPost (auto : AutoId) (now : Timestamp)
  /-- The outcome of the `k`-th write under way. -/
  | settle (k : Nat) (accepted : Bool)

def fieldStep (currentUser : Option User) (club : ClubTile) (s : FieldRun) :
    FieldAction → Option FieldRun
  | .edit text => some { s with posts := { s.posts with newPostController := text } }
  | .navigateBottomBar index => some ({ s with selectedIndex := index }.build currentUser)
  | .pressJoin auto =>
    some ({ s with
      db := commit (ClubOutline.joinClub currentUser auto club s.db).toList s.db
      isJoined := !s.isJoined }.build currentUser)
  | .pressNotify => some ({ s with isNotified := !s.isNotified }.build currentUser)
  | .pressPost auto now =>
    if s.fresh (postsOf club.clubName ++ [auto.val]) then
      match s.posts.postMessage auto now club.clubName with
      | (posts, some w) => some { s with posts := posts, net := s.net ++ [(s.text, w)] }
      | (posts, none) => some { s with posts := posts }
    else none
  | .settle k accepted =>
    (s.net[k]?).map fun (text, w) =>
      { s with
        db := if accepted then w.settle s.db else s.db
        net := s.net.eraseIdx k
        settled := text :: s.settled }

/-! ## What the field promises -/

/-- The number of posts of the club with the text. -/
def storedTimes (club : ClubTile) (db : Db) (text : String) : Nat :=
  (snapshotDocs db (postsOf club.clubName)).countP fun x => x.2 .postMessage == some (.str text)

/-- A text in the field before a step, unless the step is an edit, is in it afterwards, or has
been handed to one write. -/
def KeepsText (s : FieldRun) (a : FieldAction) (t : FieldRun) : Prop :=
  s.text ≠ "" → (∀ text, a ≠ .edit text) → t.text = s.text ∨ ∃ w, t.net = s.net ++ [(s.text, w)]

/-- Each text whose write has settled is one more post of the club. -/
def Ledger (club : ClubTile) (db : Db) (s : FieldRun) : Prop :=
  ∀ text, storedTimes club s.db text = storedTimes club db text + s.settled.count text

/-- The law of the field over a whole run. -/
structure NoTextLost (currentUser : Option User) (club : ClubTile) (db : Db)
    (as : List FieldAction) : Prop where
  kept : ∀ x ∈ taken (fieldStep currentUser club) (.start currentUser db) as,
    ∀ t, fieldStep currentUser club x.1 x.2 = some t → KeepsText x.1 x.2 t
  stored : ∀ s ∈ visited (fieldStep currentUser club) (.start currentUser db) as, Ledger club db s

/-- The step does not rebuild the page while the field has a text. -/
def RebuildsEmpty (s : FieldRun) : FieldAction → Prop
  | .navigateBottomBar _ | .pressJoin _ | .pressNotify => s.text = ""
  | _ => True

/-- The step does not reject a write. -/
def Accepts : FieldAction → Prop
  | .settle _ accepted => accepted = true
  | _ => True

variable {currentUser : Option User} {club : ClubTile} {db : Db} {s t : FieldRun} {a : FieldAction}

/-! ## Counting posts -/

/-- **A post at a fresh reference** is one more post with its text, and with no other. -/
theorem storedTimes_insert {p : Post} (hfresh : db.lookup (postPath club.clubName p) = none)
    (text : String) :
    storedTimes club (db.insert (postPath club.clubName p) p.doc) text =
      storedTimes club db text + if p.message = text then 1 else 0 := by
  have hmessage : p.doc .postMessage = some (.str p.message) := rfl
  have hperm := snapshotDocs_insert_perm (d := p.doc) hfresh
  unfold storedTimes
  rw [postPath, hperm.countP_eq, List.countP_cons]
  simp only [hmessage, beq_iff_eq, Option.some.injEq, Value.str.injEq]

/-- A write outside the posts of the club leaves the count. -/
theorem storedTimes_congr {db' : Db}
    (h : ∀ i, db'.lookup (postsOf club.clubName ++ [i]) = db.lookup (postsOf club.clubName ++ [i]))
    (text : String) : storedTimes club db' text = storedTimes club db text :=
  (snapshotDocs_perm_of_lookup h).countP_eq _

/-- `joinClub` does not touch the posts. -/
theorem lookup_joinClub (auto : AutoId) (i : String) :
    (commit (ClubOutline.joinClub currentUser auto club db).toList db).lookup
        (postsOf club.clubName ++ [i]) =
      db.lookup (postsOf club.clubName ++ [i]) := by
  apply commit_frame
  intro w hw
  unfold ClubOutline.joinClub at hw
  dsimp only at hw
  split at hw
  · cases hw
  · rw [Option.toList_some, List.mem_singleton] at hw
    rw [hw]
    -- memberships are below `Users`
    unfold ClubOutline.clubRef
    cases currentUser <;> simp [Write.path, postsOf]

/-! ## The invariant -/

/-- The writes under way are posts at references of their own. -/
structure FieldInv (club : ClubTile) (s : FieldRun) : Prop where
  net : ∀ x ∈ s.net, ∃ p : Post, x = (p.message, .set (postPath club.clubName p) p.doc) ∧
    s.db.lookup (postPath club.clubName p) = none
  paths : (s.net.map fun x => x.2.path).Nodup

theorem FieldRun.fresh_iff {p : Path} :
    s.fresh p = true ↔ s.db.lookup p = none ∧ ∀ x ∈ s.net, x.2.path ≠ p := by
  simp [fresh]

/-- **A press of the post button** leaves the field, or hands its text to one new write. -/
theorem pressPost_cases {auto : AutoId} {now : Timestamp}
    (ht : fieldStep currentUser club s (.pressPost auto now) = some t) :
    t = s ∨ s.text = "" ∧ t = { s with posts := s.posts.clear } ∨
      ∃ p : Post, p.message = s.text ∧ s.fresh (postPath club.clubName p) = true ∧
        t = { s with
          posts := s.posts.clear
          net := s.net ++ [(p.message, .set (postPath club.clubName p) p.doc)] } := by
  obtain ⟨hfresh, ht⟩ := Option.ite_none_right_eq_some.1 ht
  unfold PostsStreamPage.postMessage at ht
  split_ifs at ht with hempty
  · cases ht
    exact .inr (.inl ⟨String.isEmpty_iff.1 hempty, rfl⟩)
  · cases huser : s.posts.user with
    | none =>
      rw [huser] at ht
      cases ht
      exact .inl rfl
    | some u =>
      rw [huser] at ht
      cases ht
      exact .inr (.inr ⟨⟨auto, u, s.text, now⟩, rfl, hfresh, rfl⟩)

theorem settle_cases {k : Nat} {accepted : Bool}
    (ht : fieldStep currentUser club s (.settle k accepted) = some t) :
    ∃ text w, s.net[k]? = some (text, w) ∧
      t = { s with
        db := if accepted then w.settle s.db else s.db
        net := s.net.eraseIdx k
        settled := text :: s.settled } := by
  obtain ⟨⟨text, w⟩, hx, rfl⟩ := Option.map_eq_some_iff.1 ht
  exact ⟨text, w, hx, rfl⟩

/-- The writes under way, their outcomes and the posts of the club are as before. -/
structure Quiet (club : ClubTile) (s t : FieldRun) : Prop where
  net : t.net = s.net
  settled : t.settled = s.settled
  posts : ∀ i, t.db.lookup (postsOf club.clubName ++ [i]) =
    s.db.lookup (postsOf club.clubName ++ [i])

/-- **What a step does to the writes**: nothing, or it issues one, or one settles. -/
theorem fieldStep_cases (ht : fieldStep currentUser club s a = some t) :
    (Quiet club s t ∧ Accepts a) ∨
      (Accepts a ∧ ∃ p : Post, p.message = s.text ∧ s.fresh (postPath club.clubName p) = true ∧
        t = { s with
          posts := s.posts.clear
          net := s.net ++ [(p.message, .set (postPath club.clubName p) p.doc)] }) ∨
      ∃ k accepted text w, a = .settle k accepted ∧ s.net[k]? = some (text, w) ∧
        t = { s with
          db := if accepted then w.settle s.db else s.db
          net := s.net.eraseIdx k
          settled := text :: s.settled } := by
  cases a with
  | edit text => cases ht; exact .inl ⟨⟨rfl, rfl, fun _ => rfl⟩, trivial⟩
  | navigateBottomBar index => cases ht; exact .inl ⟨⟨rfl, rfl, fun _ => rfl⟩, trivial⟩
  | pressJoin auto => cases ht; exact .inl ⟨⟨rfl, rfl, fun i => lookup_joinClub auto i⟩, trivial⟩
  | pressNotify => cases ht; exact .inl ⟨⟨rfl, rfl, fun _ => rfl⟩, trivial⟩
  | pressPost auto now =>
    obtain rfl | ⟨-, rfl⟩ | ⟨p, hmessage, hfresh, rfl⟩ := pressPost_cases ht
    · exact .inl ⟨⟨rfl, rfl, fun _ => rfl⟩, trivial⟩
    · exact .inl ⟨⟨rfl, rfl, fun _ => rfl⟩, trivial⟩
    · exact .inr (.inl ⟨trivial, p, hmessage, hfresh, rfl⟩)
  | settle k accepted =>
    obtain ⟨text, w, hx, rfl⟩ := settle_cases ht
    exact .inr (.inr ⟨k, accepted, text, w, rfl, hx, rfl⟩)

theorem fieldInv_start : FieldInv club (.start currentUser db) :=
  ⟨fun x hx => (by cases hx), List.nodup_nil⟩

theorem FieldInv.quiet (hi : FieldInv club s) (hquiet : Quiet club s t) : FieldInv club t := by
  refine ⟨fun x hx => ?_, ?_⟩
  · rw [hquiet.net] at hx
    obtain ⟨p, rfl, hp⟩ := hi.net x hx
    exact ⟨p, rfl, (hquiet.posts p.auto.val).trans hp⟩
  · rw [hquiet.net]
    exact hi.paths

theorem FieldInv.post (hi : FieldInv club s) {p : Post}
    (hfresh : s.fresh (postPath club.clubName p) = true) {posts : PostsStreamPage} :
    FieldInv club { s with
      posts := posts
      net := s.net ++ [(p.message, .set (postPath club.clubName p) p.doc)] } := by
  obtain ⟨hdb, hnet⟩ := FieldRun.fresh_iff.1 hfresh
  refine ⟨fun x hx => ?_, ?_⟩
  · rcases List.mem_append.1 hx with hx | hx
    · exact hi.net x hx
    · exact ⟨p, List.mem_singleton.1 hx, hdb⟩
  · rw [List.map_append, List.map_singleton, List.nodup_append']
    refine ⟨hi.paths, List.nodup_singleton _, ?_⟩
    rw [List.disjoint_singleton, List.mem_map]
    rintro ⟨x, hx, hpath⟩
    exact hnet x hx hpath

theorem FieldInv.settle (hi : FieldInv club s) {k : Nat} {p : Post}
    (hx : s.net[k]? = some (p.message, .set (postPath club.clubName p) p.doc)) (accepted : Bool) :
    FieldInv club { s with
      db := if accepted then (Write.set (postPath club.clubName p) p.doc).settle s.db else s.db
      net := s.net.eraseIdx k
      settled := p.message :: s.settled } := by
  obtain ⟨hk, hget⟩ := List.getElem?_eq_some_iff.1 hx
  have hperm := (List.getElem_cons_eraseIdx_perm hk).map fun x : String × Write => x.2.path
  have hnodup := hperm.nodup_iff.2 hi.paths
  rw [hget, List.map_cons, List.nodup_cons] at hnodup
  refine ⟨fun x hmem => ?_, hnodup.2⟩
  obtain ⟨q, rfl, hq⟩ := hi.net x (List.mem_of_mem_eraseIdx hmem)
  refine ⟨q, rfl, ?_⟩
  cases accepted with
  | false => exact hq
  | true =>
    -- the other writes have other references
    have hne : postPath club.clubName q ≠ postPath club.clubName p := fun heq =>
      hnodup.1 (List.mem_map.2 ⟨_, hmem, heq⟩)
    exact (Write.settle_frame (w := .set (postPath club.clubName p) p.doc) hne).trans hq

theorem fieldInv_step (hi : FieldInv club s) (ht : fieldStep currentUser club s a = some t) :
    FieldInv club t := by
  obtain ⟨hquiet, -⟩ | ⟨-, p, -, hfresh, rfl⟩ | ⟨k, accepted, text, w, rfl, hx, rfl⟩ :=
    fieldStep_cases ht
  · exact hi.quiet hquiet
  · exact hi.post hfresh
  · obtain ⟨p, heq, -⟩ := hi.net _ (List.mem_of_getElem? hx)
    cases heq
    exact hi.settle hx accepted

/-! ## One step -/

/-- A new build empties the field. -/
theorem keepsText_of_build (htext : t.text = "") (hnet : t.net = s.net)
    (hedit : ∀ text, a ≠ .edit text) : KeepsText s a t ↔ s.text = "" := by
  constructor
  · intro h
    by_contra hne
    rcases h hne hedit with heq | ⟨w, heq⟩
    · exact hne (heq.symm.trans htext)
    · have hlen := congrArg List.length (hnet.symm.trans heq)
      simp at hlen
  · exact fun hempty hne => absurd hempty hne

/-- **A step keeps the text of the field exactly when it does not rebuild the page around one.** -/
theorem keepsText_iff (ht : fieldStep currentUser club s a = some t) :
    KeepsText s a t ↔ RebuildsEmpty s a := by
  cases a with
  | edit text => exact iff_of_true (fun _ h => absurd rfl (h text)) trivial
  | navigateBottomBar index =>
    cases ht
    exact keepsText_of_build rfl rfl fun text h => by cases h
  | pressJoin auto =>
    cases ht
    exact keepsText_of_build rfl rfl fun text h => by cases h
  | pressNotify =>
    cases ht
    exact keepsText_of_build rfl rfl fun text h => by cases h
  | pressPost auto now =>
    refine iff_of_true (fun hne _ => ?_) trivial
    obtain rfl | ⟨hempty, -⟩ | ⟨p, hmessage, -, rfl⟩ := pressPost_cases ht
    · exact .inl rfl
    · exact absurd hempty hne
    · rw [← hmessage]
      exact .inr ⟨_, rfl⟩
  | settle k accepted =>
    obtain ⟨text, w, -, rfl⟩ := settle_cases ht
    exact iff_of_true (fun _ _ => .inl rfl) trivial

theorem Ledger.quiet (hl : Ledger club db s) (hquiet : Quiet club s t) : Ledger club db t := by
  intro text
  rw [storedTimes_congr hquiet.posts, hquiet.settled]
  exact hl text

/-- A post whose write is accepted. -/
theorem Ledger.accept (hl : Ledger club db s) {p : Post}
    (hfresh : s.db.lookup (postPath club.clubName p) = none) (text : String) :
    storedTimes club (s.db.insert (postPath club.clubName p) p.doc) text =
      storedTimes club db text + (p.message :: s.settled).count text := by
  rw [storedTimes_insert hfresh, hl text, List.count_cons]
  simp only [beq_iff_eq]
  omega

/-- **A step keeps the ledger exactly when it does not reject a write.** -/
theorem ledger_step (hi : FieldInv club s) (hl : Ledger club db s)
    (ht : fieldStep currentUser club s a = some t) : Ledger club db t ↔ Accepts a := by
  obtain ⟨hquiet, ha⟩ | ⟨ha, p, -, -, rfl⟩ | ⟨k, accepted, text, w, rfl, hx, rfl⟩ :=
    fieldStep_cases ht
  · exact iff_of_true (hl.quiet hquiet) ha
  · exact iff_of_true hl ha
  · obtain ⟨p, heq, hfresh⟩ := hi.net _ (List.mem_of_getElem? hx)
    cases heq
    cases accepted with
    | true => exact iff_of_true (hl.accept hfresh) rfl
    | false =>
      -- the text has settled without a post
      refine iff_of_false (fun h => ?_) (fun h => by cases h)
      have hnow : storedTimes club s.db p.message =
          storedTimes club db p.message + (p.message :: s.settled).count p.message := h p.message
      rw [hl p.message, List.count_cons_self] at hnow
      omega

/-! ## Runs -/

/-- **No typed text is lost in a run exactly when** every tab change and every press of the join
or notification button finds the field empty, and no write that settles is rejected. -/
theorem noTextLost_iff (currentUser : Option User) (club : ClubTile) (db : Db)
    (as : List FieldAction) :
    NoTextLost currentUser club db as ↔
      ∀ x ∈ taken (fieldStep currentUser club) (.start currentUser db) as,
        RebuildsEmpty x.1 x.2 ∧ Accepts x.2 := by
  have hkept : (∀ x ∈ taken (fieldStep currentUser club) (.start currentUser db) as,
      ∀ t, fieldStep currentUser club x.1 x.2 = some t → KeepsText x.1 x.2 t) ↔
      ∀ x ∈ taken (fieldStep currentUser club) (.start currentUser db) as,
        RebuildsEmpty x.1 x.2 := by
    refine taken_iff_taken (I := fun _ => True)
      (G := fun s a => ∀ t, fieldStep currentUser club s a = some t → KeepsText s a t)
      (C := RebuildsEmpty) trivial (fun _ _ _ _ _ => trivial) (fun s a t _ ht => ?_) as
    constructor
    · exact fun h => (keepsText_iff ht).1 (h t ht)
    · exact fun h t' ht' => (keepsText_iff ht').2 h
  have hstored : (∀ s ∈ visited (fieldStep currentUser club) (.start currentUser db) as,
      Ledger club db s) ↔
      ∀ x ∈ taken (fieldStep currentUser club) (.start currentUser db) as, Accepts x.2 :=
    visited_iff_taken (I := FieldInv club) (G := Ledger club db) (C := fun _ a => Accepts a)
      fieldInv_start (fun _ => rfl) (fun _ _ _ hi ht => fieldInv_step hi ht)
      (fun _ _ _ hi hl ht => ledger_step hi hl ht) as
  constructor
  · rintro ⟨hkeep, hledger⟩ x hx
    exact ⟨hkept.1 hkeep x hx, hstored.1 hledger x hx⟩
  · intro h
    exact ⟨hkept.2 fun x hx => (h x hx).1, hstored.2 fun x hx => (h x hx).2⟩

/-- Ann types an announcement and looks at the calendar before she posts it. -/
def typedAndLeft : List FieldAction :=
  [.navigateBottomBar 1, .edit "Hello", .navigateBottomBar 2]

/-- Ann posts an announcement, and the write is rejected. -/
def postedInVain : List FieldAction :=
  [.navigateBottomBar 1, .edit "Hello", .pressPost sampleAutoId 0, .settle 0 false]

/-- Both texts are gone. -/
theorem typed_texts_lost :
    ¬ NoTextLost (some ann) chessClub ∅ typedAndLeft ∧
      ¬ NoTextLost (some ann) chessClub ∅ postedInVain := by
  constructor
  · intro h
    -- the state with the text on screen
    let s : FieldRun := ⟨1, false, false, ⟨some ann, "Hello"⟩, ∅, [], []⟩
    have ht : fieldStep (some ann) chessClub s (.navigateBottomBar 2) =
        some ({ s with selectedIndex := 2 }.build (some ann)) := rfl
    have hkept := h.kept (s, .navigateBottomBar 2) (.tail _ (.tail _ (.head _))) _ ht
    have hempty : "Hello" = "" := (keepsText_iff ht).1 hkept
    simp at hempty
  · intro h
    have hcount := h.stored _ (mem_visited.2 (.inr rfl)) "Hello"
    exact absurd hcount (by decide)

end TheHive
