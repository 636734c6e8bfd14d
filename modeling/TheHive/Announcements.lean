import Mathlib.Data.List.Induction
import Mathlib.Data.List.Perm.Basic
import Mathlib.Data.Prod.Lex
import TheHive.Lib.OrderBy
import TheHive.Lib.Transition
import TheHive.CalendarPage

/-!
# The announcements of a club

A post carries the time of its device's clock; the list orders the posts by that field, and posts
of the same time by their ids.  Devices post and receive snapshots in any order, and their clocks
differ by arbitrary offsets.  A snapshot on a device lists what it has received of the store and
its own posts, arrived or not.

* `FirestoreDatabase.getPostStream` — the listing of a store.
* `postStep` — time passes; a device posts, receives the store, or shows a snapshot; a post arrives.
* `CausalOrder` — a post made on a device that had shown another one is listed above it;
  `causalOrder_iff` reads it off the keys of the posts.
* `causalOrder_run` — **a run keeps the causal order exactly when every post is made with a larger
  key than the posts its device has shown**.
* `answer_below_question` — a device whose clock is behind answers a post.
-/

set_option autoImplicit false

namespace TheHive

open DocStore Transition

/-! ## The stream -/

/-- The posts of a club. -/
def postsOf (club : DocId) : Path := ["club", club.val, "Posts"]

/-- The order field of a post. -/
def timeStampOf (x : Path × Doc) : Timestamp := (Doc.timestamp x.2 .timeStamp).getD 0

/-- The documents the query selects: those with the order field. -/
def stampedPosts (club : DocId) (db : Db) : List (Path × Doc) :=
  (snapshotDocs db (postsOf club)).filter fun x => (Doc.timestamp x.2 .timeStamp).isSome

/-- What the query orders by: the order field, and after it the document key in the same
direction. -/
def postKey (x : Path × Doc) : Timestamp ×ₗ Path := toLex (timeStampOf x, x.1)

/-- A snapshot of the posts: by `TimeStamp`, descending. -/
def FirestoreDatabase.getPostStream (club : DocId) (db : Db) : List (Path × Doc) :=
  OrderBy.descending postKey (stampedPosts club db)

/-! ## Posting and reading -/

structure Post where
  auto : AutoId
  user : User
  message : String
  timeStamp : Timestamp

namespace Post

/-- The document of a post. -/
def doc (p : Post) : Doc :=
  Doc.ofList [(.userEmail, .str p.user.email), (.postMessage, .str p.message),
    (.timeStamp, .timestamp p.timeStamp)]

def write (club : DocId) (p : Post) : Option Write :=
  FirestoreDatabase.addPost (some p.user) p.auto p.timeStamp p.message club

end Post

/-- Where a post is stored. -/
def postPath (club : DocId) (p : Post) : Path := postsOf club ++ [p.auto.val]

/-- A store to which posts have been added. -/
def withPosts (club : DocId) (db : Db) (posts : List Post) : Db :=
  commit (posts.filterMap (Post.write club)) db

variable {ι : Type*}

structure PostRun (ι : Type*) where
  /-- The true time. -/
  time : Timestamp
  /-- The posts that have arrived. -/
  arrived : List Post
  /-- The posts under way. -/
  net : List Post
  /-- The arrived posts a device has received. -/
  received : ι → List Post
  /-- The posts made on a device. -/
  own : ι → List Post
  /-- The posts that have been in a snapshot on a device. -/
  shown : ι → List Post
  /-- The pairs of posts of which the second was made on a device that had shown the first. -/
  after : List (Post × Post)

inductive PostAction (ι : Type*) where
  | tick (d : Nat)
  | submit (i : ι) (user : User) (auto : AutoId) (message : String)
  | arrive (k : Nat)
  /-- The device receives the posts of the store. -/
  | receive (i : ι)
  /-- A snapshot is delivered to the page on the device. -/
  | deliver (i : ι)

namespace PostRun

def posts (s : PostRun ι) : List Post := s.arrived ++ s.net

/-- The posts a snapshot on the device lists. -/
def visible (s : PostRun ι) (i : ι) : List Post := s.received i ++ s.own i

def start : PostRun ι := ⟨0, [], [], fun _ => [], fun _ => [], fun _ => [], []⟩

end PostRun

/-- What `postMessage` posts on the device. -/
def submitted (offset : ι → Int) (s : PostRun ι) (i : ι) (user : User) (auto : AutoId)
    (message : String) : Post :=
  ⟨auto, user, message, s.time + offset i⟩

def postStep [DecidableEq ι] (offset : ι → Int) (s : PostRun ι) : PostAction ι → Option (PostRun ι)
  | .tick d => some { s with time := s.time + d }
  | .submit i user auto message =>
    -- `postMessage` posts nothing while the text field is empty; the id is fresh
    if message ≠ "" ∧ ∀ p ∈ s.posts, p.auto ≠ auto then
      some { s with
        net := s.net ++ [submitted offset s i user auto message]
        own := Function.update s.own i (s.own i ++ [submitted offset s i user auto message])
        after := s.after ++ (s.shown i).map (·, submitted offset s i user auto message) }
    else none
  | .arrive k =>
    (s.net[k]?).map fun p => { s with arrived := s.arrived ++ [p], net := s.net.eraseIdx k }
  | .receive i => some { s with received := Function.update s.received i s.arrived }
  | .deliver i => some { s with shown := Function.update s.shown i (s.visible i) }

/-- In a snapshot of the store with both posts, the one made after the other was shown is above
it. -/
def InCausalOrder (club : DocId) (after : List (Post × Post)) (db : Db) : Prop :=
  ∀ p q, (p, q) ∈ after →
    postPath club p ∈ (FirestoreDatabase.getPostStream club db).map Prod.fst →
    postPath club q ∈ (FirestoreDatabase.getPostStream club db).map Prod.fst →
      [postPath club q, postPath club p].Sublist ((FirestoreDatabase.getPostStream club db).map Prod.fst)

/-- Every snapshot shows the posts in causal order: on each device, with its own posts, and of all
that has arrived. -/
structure CausalOrder (club : DocId) (db : Db) (s : PostRun ι) : Prop where
  devices : ∀ i, InCausalOrder club s.after (withPosts club db (s.visible i))
  store : InCausalOrder club s.after (withPosts club db s.arrived)

/-- The order of two posts in a listing. -/
def Post.key (club : DocId) (p : Post) : Timestamp ×ₗ Path := toLex (p.timeStamp, postPath club p)

/-- A post is made with a later time stamp than those its device has shown, or with the same one
and a larger id. -/
def SubmitsInOrder (offset : ι → Int) (club : DocId) (s : PostRun ι) : PostAction ι → Prop
  | .submit i user auto message =>
    ∀ p ∈ s.shown i, p.key club < (submitted offset s i user auto message).key club
  | _ => True

/-- The club has no posts yet. -/
def NoPosts (club : DocId) (db : Db) : Prop := ∀ i, db.lookup (postsOf club ++ [i]) = none

variable {offset : ι → Int} {club : DocId} {db : Db} {s t : PostRun ι} {a : PostAction ι}
  {posts : List Post} {p q : Post}

/-! ## The listing of a store with posts -/

/-- The posts of the club in the store are these. -/
def Stores (club : DocId) (db : Db) (posts : List Post) : Prop :=
  ∀ i d, db.lookup (postsOf club ++ [i]) = some d ↔ ∃ p ∈ posts, p.auto.val = i ∧ d = p.doc

/-- Posts with one id are the same. -/
def SameById (posts : List Post) : Prop := ∀ p ∈ posts, ∀ q ∈ posts, p.auto = q.auto → p = q

theorem stores_insert (h : Stores club db posts) (hids : SameById (posts ++ [p])) :
    Stores club (db.insert (postPath club p) p.doc) (posts ++ [p]) := by
  intro j d
  by_cases hj : p.auto.val = j
  · subst hj
    rw [show postsOf club ++ [p.auto.val] = postPath club p from rfl, AList.lookup_insert]
    constructor
    · intro hd
      cases hd
      exact ⟨p, by simp, rfl, rfl⟩
    · rintro ⟨q, hq, hid, rfl⟩
      rw [hids q hq p (by simp) (AutoId.val_injective hid)]
  · have hne : postsOf club ++ [j] ≠ postPath club p := by
      intro heq
      exact hj (by simpa [postPath] using heq.symm)
    rw [AList.lookup_insert_ne hne, h]
    constructor
    · rintro ⟨q, hq, hid, rfl⟩
      exact ⟨q, List.mem_append_left _ hq, hid, rfl⟩
    · rintro ⟨q, hq, hid, rfl⟩
      rcases List.mem_append.1 hq with hq | hq
      · exact ⟨q, hq, hid, rfl⟩
      · rw [List.mem_singleton.1 hq] at hid
        exact absurd hid hj

theorem stores_withPosts (hdb : NoPosts club db) (hids : SameById posts) :
    Stores club (withPosts club db posts) posts := by
  induction posts using List.reverseRecOn with
  | nil =>
    intro i d
    rw [show withPosts club db [] = db from rfl, hdb i]
    simp
  | append_singleton posts p ih =>
    have hstep : withPosts club db (posts ++ [p]) =
        (withPosts club db posts).insert (postPath club p) p.doc := by
      rw [withPosts, List.filterMap_append, commit, List.foldl_append]
      rfl
    rw [hstep]
    refine stores_insert (ih fun q hq r hr => hids q ?_ r ?_) hids
    · exact List.mem_append_left _ hq
    · exact List.mem_append_left _ hr

theorem mem_getPostStream (h : Stores club db posts) {x : Path × Doc} :
    x ∈ FirestoreDatabase.getPostStream club db ↔ ∃ p ∈ posts, x = (postPath club p, p.doc) := by
  rw [FirestoreDatabase.getPostStream, OrderBy.mem_descending, stampedPosts, List.mem_filter]
  constructor
  · rintro ⟨hx, -⟩
    obtain ⟨i, hpath, hd⟩ := mem_snapshotDocs.1 hx
    rw [hpath] at hd
    obtain ⟨p, hp, hid, hdoc⟩ := (h i x.2).1 hd
    refine ⟨p, hp, Prod.ext ?_ hdoc⟩
    rw [hpath, postPath, hid]
  · rintro ⟨p, hp, rfl⟩
    exact ⟨mem_snapshotDocs.2 ⟨p.auto.val, rfl, (h _ _).2 ⟨p, hp, rfl, rfl⟩⟩, rfl⟩

theorem postPath_injective (h : postPath club p = postPath club q) : p.auto = q.auto := by
  have hval : p.auto.val = q.auto.val := by simpa [postPath] using h
  exact AutoId.val_injective hval

theorem mem_map_getPostStream (h : Stores club db posts) {all : List Post} (hids : SameById all)
    (hsub : ∀ p ∈ posts, p ∈ all) (hp : p ∈ all) :
    postPath club p ∈ (FirestoreDatabase.getPostStream club db).map Prod.fst ↔ p ∈ posts := by
  rw [List.mem_map]
  constructor
  · rintro ⟨x, hx, hpath⟩
    obtain ⟨q, hq, rfl⟩ := (mem_getPostStream h).1 hx
    rw [hids p hp q (hsub q hq) (postPath_injective hpath.symm)]
    exact hq
  · intro hmem
    exact ⟨(postPath club p, p.doc), (mem_getPostStream h).2 ⟨p, hmem, rfl⟩, rfl⟩

/-- **Two posts of a listing come by their keys.** -/
theorem sublist_getPostStream_iff (h : Stores club db posts) (hids : SameById posts) (hp : p ∈ posts)
    (hq : q ∈ posts) (hne : p.auto ≠ q.auto) :
    [postPath club q, postPath club p].Sublist
        ((FirestoreDatabase.getPostStream club db).map Prod.fst) ↔ p.key club < q.key club := by
  have hmem : ∀ r ∈ posts, (postPath club r, r.doc) ∈ stampedPosts club db := by
    intro r hr
    exact OrderBy.mem_descending.1 ((mem_getPostStream h).2 ⟨r, hr, rfl⟩)
  have hkey : postKey (postPath club p, p.doc) ≠ postKey (postPath club q, q.doc) := by
    intro heq
    exact hne (postPath_injective (congrArg (fun k => (ofLex k).2) heq))
  rw [show p.key club = postKey (postPath club p, p.doc) from rfl,
    show q.key club = postKey (postPath club q, q.doc) from rfl,
    ← OrderBy.sublist_descending_iff (hmem p hp) (hmem q hq) hkey]
  constructor
  · intro hsub
    obtain ⟨l, hl, hmap⟩ := List.sublist_map_iff.1 hsub
    -- the documents at the two paths are those of the posts
    have hdoc : ∀ r ∈ posts, ∀ x ∈ l, x.1 = postPath club r → x = (postPath club r, r.doc) := by
      intro r hr x hx hpath
      obtain ⟨r', hr', rfl⟩ := (mem_getPostStream h).1 (hl.subset hx)
      rw [hids r' hr' r hr (postPath_injective hpath)]
    obtain ⟨x, l, rfl, hx, hmap⟩ := List.map_eq_cons_iff.1 hmap.symm
    obtain ⟨y, l, rfl, hy, hmap⟩ := List.map_eq_cons_iff.1 hmap
    cases List.map_eq_nil_iff.1 hmap
    rw [← hdoc q hq x (by simp) hx, ← hdoc p hp y (by simp) hy]
    exact hl
  · exact fun hsub => hsub.map Prod.fst

/-! ## The invariant -/

structure PostInv (s : PostRun ι) : Prop where
  ids : (s.posts.map Post.auto).Nodup
  received : ∀ i, ∀ p ∈ s.received i, p ∈ s.arrived
  own : ∀ i, ∀ p ∈ s.own i, p ∈ s.posts
  shown : ∀ i, ∀ p ∈ s.shown i, p ∈ s.visible i
  /-- Two such posts are in the snapshots of the device that made the second. -/
  after : ∀ p q, (p, q) ∈ s.after → p.auto ≠ q.auto ∧ ∃ i, p ∈ s.visible i ∧ q ∈ s.visible i

/-- Every post is made with a larger key than those shown before. -/
def KeysGrow (club : DocId) (s : PostRun ι) : Prop :=
  ∀ p q, (p, q) ∈ s.after → p.key club < q.key club

namespace PostInv

/-- A post is known by its id. -/
theorem sameById (hi : PostInv s) : SameById s.posts := fun _ hp _ hq h =>
  List.inj_on_of_nodup_map hi.ids hp hq h

theorem mem_posts_of_visible (hi : PostInv s) {i : ι} (hp : p ∈ s.visible i) : p ∈ s.posts := by
  rcases List.mem_append.1 hp with hp | hp
  · exact List.mem_append_left _ (hi.received i p hp)
  · exact hi.own i p hp

theorem start : PostInv (.start : PostRun ι) :=
  ⟨List.nodup_nil, fun _ _ h => (by cases h), fun _ _ h => (by cases h), fun _ _ h => (by cases h),
    fun _ _ h => (by cases h)⟩

end PostInv

/-- A listing is in causal order exactly when the keys of its posts are. -/
theorem inCausalOrder_iff (hdb : NoPosts club db) (hi : PostInv s) (hsub : ∀ p ∈ posts, p ∈ s.posts) :
    InCausalOrder club s.after (withPosts club db posts) ↔
      ∀ p q, (p, q) ∈ s.after → p ∈ posts → q ∈ posts → p.key club < q.key club := by
  have hids : SameById posts := fun p hp q hq => hi.sameById p (hsub p hp) q (hsub q hq)
  have hstores := stores_withPosts hdb hids
  refine forall₃_congr fun p q hpq => ?_
  obtain ⟨hne, i, hp, hq⟩ := hi.after p q hpq
  rw [mem_map_getPostStream hstores hi.sameById hsub (hi.mem_posts_of_visible hp),
    mem_map_getPostStream hstores hi.sameById hsub (hi.mem_posts_of_visible hq)]
  refine forall₂_congr fun hp hq => ?_
  exact sublist_getPostStream_iff hstores hids hp hq hne

/-- **The causal order, read off the keys.** -/
theorem causalOrder_iff (hdb : NoPosts club db) (hi : PostInv s) :
    CausalOrder club db s ↔ KeysGrow club s := by
  constructor
  · intro h p q hpq
    obtain ⟨-, i, hp, hq⟩ := hi.after p q hpq
    exact (inCausalOrder_iff hdb hi fun _ => hi.mem_posts_of_visible).1 (h.devices i) p q hpq hp hq
  · intro h
    refine ⟨fun i => ?_, ?_⟩
    · exact (inCausalOrder_iff hdb hi fun _ => hi.mem_posts_of_visible).2 fun p q hpq _ _ => h p q hpq
    · exact (inCausalOrder_iff hdb hi fun _ => List.mem_append_left _).2 fun p q hpq _ _ => h p q hpq

/-! ## Steps -/

/-- An arrival moves a post from the network to the store. -/
theorem posts_perm_arrive {k : Nat} (hp : s.net[k]? = some p) :
    (s.arrived ++ [p] ++ s.net.eraseIdx k).Perm s.posts := by
  obtain ⟨hk, rfl⟩ := List.getElem?_eq_some_iff.1 hp
  rw [List.append_assoc]
  exact (List.getElem_cons_eraseIdx_perm hk).append_left s.arrived

/-- The devices see no less after a step. -/
structure SeesMore (s t : PostRun ι) : Prop where
  posts : ∀ p ∈ s.posts, p ∈ t.posts
  visible : ∀ i, ∀ p ∈ s.visible i, p ∈ t.visible i

/-- The pairs of before, when the devices see no less. -/
theorem PostInv.after_of_seesMore (hi : PostInv s) (h : SeesMore s t) (hpq : (p, q) ∈ s.after) :
    p.auto ≠ q.auto ∧ ∃ i, p ∈ t.visible i ∧ q ∈ t.visible i := by
  obtain ⟨hne, i, hp, hq⟩ := hi.after p q hpq
  exact ⟨hne, i, h.visible i p hp, h.visible i q hq⟩

theorem PostInv.arrive (hi : PostInv s) {k : Nat} (hp : s.net[k]? = some p) :
    PostInv { s with arrived := s.arrived ++ [p], net := s.net.eraseIdx k } := by
  have hperm := posts_perm_arrive hp
  exact ⟨(hperm.map Post.auto).nodup_iff.2 hi.ids,
    fun j q hq => List.mem_append_left _ (hi.received j q hq),
    fun j q hq => hperm.mem_iff.2 (hi.own j q hq), hi.shown, hi.after⟩

section Step

variable [DecidableEq ι] {f : ι → List Post} {i j : ι}

theorem mem_of_mem_update (h : q ∈ Function.update f i posts j) : j = i ∧ q ∈ posts ∨ q ∈ f j := by
  by_cases hj : j = i
  · subst hj
    rw [Function.update_self] at h
    exact .inl ⟨rfl, h⟩
  · rw [Function.update_of_ne hj] at h
    exact .inr h

/-- A device is given more posts. -/
theorem mem_update_of_mem (hsub : ∀ p ∈ f i, p ∈ posts) (h : q ∈ f j) :
    q ∈ Function.update f i posts j := by
  by_cases hj : j = i
  · subst hj
    rw [Function.update_self]
    exact hsub q h
  · rwa [Function.update_of_ne hj]

theorem PostInv.submit (hi : PostInv s) (hfresh : ∀ q ∈ s.posts, q.auto ≠ p.auto) :
    PostInv { s with
      net := s.net ++ [p]
      own := Function.update s.own i (s.own i ++ [p])
      after := s.after ++ (s.shown i).map (·, p) } := by
  -- the new post is the only change
  have hsees : SeesMore s { s with
      net := s.net ++ [p]
      own := Function.update s.own i (s.own i ++ [p])
      after := s.after ++ (s.shown i).map (·, p) } := by
    refine ⟨fun q hq => ?_, fun j q hq => (List.mem_append.1 hq).elim (List.mem_append_left _) ?_⟩
    · show q ∈ s.arrived ++ (s.net ++ [p])
      rw [← List.append_assoc]
      exact List.mem_append_left _ hq
    · intro hq
      exact List.mem_append_right _ (mem_update_of_mem (fun _ => List.mem_append_left _) hq)
  have hnew : p ∈ s.arrived ++ (s.net ++ [p]) := by simp
  refine ⟨?_, hi.received, fun j q hq => ?_, fun j q hq => hsees.visible j q (hi.shown j q hq),
    fun q r hqr => ?_⟩
  · show ((s.arrived ++ (s.net ++ [p])).map Post.auto).Nodup
    rw [← List.append_assoc, List.map_append, List.map_singleton, List.nodup_append']
    refine ⟨hi.ids, List.nodup_singleton _, ?_⟩
    rw [List.disjoint_singleton, List.mem_map]
    rintro ⟨q, hq, heq⟩
    exact hfresh q hq heq
  · rcases mem_of_mem_update hq with ⟨rfl, hq⟩ | hq
    · rcases List.mem_append.1 hq with hq | hq
      · exact hsees.posts q (hi.own j q hq)
      · rw [List.mem_singleton.1 hq]
        exact hnew
    · exact hsees.posts q (hi.own j q hq)
  · rcases List.mem_append.1 hqr with hqr | hqr
    · exact hi.after_of_seesMore hsees hqr
    · obtain ⟨q', hq', heq⟩ := List.mem_map.1 hqr
      cases heq
      have hq := hi.shown i q hq'
      refine ⟨hfresh q (hi.mem_posts_of_visible hq), i, hsees.visible i q hq,
        List.mem_append_right _ ?_⟩
      show p ∈ Function.update s.own i (s.own i ++ [p]) i
      rw [Function.update_self]
      exact List.mem_append_right _ List.mem_cons_self

theorem PostInv.receive (hi : PostInv s) (i : ι) :
    PostInv { s with received := Function.update s.received i s.arrived } := by
  have hsees : SeesMore s { s with received := Function.update s.received i s.arrived } := by
    refine ⟨fun q hq => hq, fun j q hq => (List.mem_append.1 hq).elim ?_ (List.mem_append_right _)⟩
    intro hq
    exact List.mem_append_left _ (mem_update_of_mem (hi.received i) hq)
  refine ⟨hi.ids, fun j q hq => ?_, hi.own, fun j q hq => hsees.visible j q (hi.shown j q hq),
    fun q r hqr => hi.after_of_seesMore hsees hqr⟩
  rcases mem_of_mem_update hq with ⟨-, hq⟩ | hq
  · exact hq
  · exact hi.received j q hq

theorem PostInv.deliver (hi : PostInv s) (i : ι) :
    PostInv { s with shown := Function.update s.shown i (s.visible i) } := by
  refine ⟨hi.ids, hi.received, hi.own, fun j q hq => ?_, hi.after⟩
  rcases mem_of_mem_update hq with ⟨rfl, hq⟩ | hq
  · exact hq
  · exact hi.shown j q hq

theorem postInv_step (hi : PostInv s) (ht : postStep offset s a = some t) : PostInv t := by
  cases a with
  | tick d =>
    cases ht
    exact ⟨hi.ids, hi.received, hi.own, hi.shown, hi.after⟩
  | submit i user auto message =>
    obtain ⟨⟨-, hfresh⟩, ht⟩ := Option.ite_none_right_eq_some.1 ht
    cases ht
    exact hi.submit hfresh
  | arrive k =>
    obtain ⟨p, hp, rfl⟩ := Option.map_eq_some_iff.1 ht
    exact hi.arrive hp
  | receive i =>
    cases ht
    exact hi.receive i
  | deliver i =>
    cases ht
    exact hi.deliver i

/-- **A step keeps the causal order exactly when what it posts is in order.** -/
theorem keysGrow_step (hg : KeysGrow club s) (ht : postStep offset s a = some t) :
    KeysGrow club t ↔ SubmitsInOrder offset club s a := by
  cases a with
  | submit i user auto message =>
    obtain ⟨-, ht⟩ := Option.ite_none_right_eq_some.1 ht
    cases ht
    constructor
    · intro h p hp
      exact h p _ (List.mem_append_right _ (List.mem_map_of_mem hp))
    · intro h p q hpq
      rcases List.mem_append.1 hpq with hpq | hpq
      · exact hg p q hpq
      · obtain ⟨p', hp', heq⟩ := List.mem_map.1 hpq
        cases heq
        exact h p hp'
  | arrive k =>
    obtain ⟨p, -, rfl⟩ := Option.map_eq_some_iff.1 ht
    exact iff_of_true hg trivial
  | tick | receive | deliver =>
    cases ht
    exact iff_of_true hg trivial

/-! ## Runs -/

/-- **A run keeps the causal order exactly when every post is made in order**, for all offsets of
the clocks. -/
theorem causalOrder_run (offset : ι → Int) (hdb : NoPosts club db) (as : List (PostAction ι)) :
    (∀ s ∈ visited (postStep offset) .start as, CausalOrder club db s) ↔
      ∀ x ∈ taken (postStep offset) .start as, SubmitsInOrder offset club x.1 x.2 := by
  refine visited_iff_taken PostInv.start ((causalOrder_iff hdb PostInv.start).2 fun p q hpq => ?_)
    (fun _ _ _ hi ht => postInv_step hi ht) (fun _ _ _ hi hg ht => ?_) as
  · cases hpq
  · rw [causalOrder_iff hdb (postInv_step hi ht)]
    exact keysGrow_step ((causalOrder_iff hdb hi).1 hg) ht

end Step

/-- Bob's phone is a minute behind Ann's. -/
def minuteBehind (bobs : Bool) : Int := if bobs then -60000000 else 0

def answerAutoId : AutoId := ⟨"q7WmDs0pKe2UyTi4VnGx", by decide, by decide⟩

/-- Bob answers Ann's post after he has read it. -/
def questionAndAnswer : List (PostAction Bool) :=
  [.submit false ann sampleAutoId "Who is coming?", .arrive 0, .receive true, .deliver true,
   .submit true bob answerAutoId "I am.", .arrive 0]

theorem noPosts_empty (club : DocId) : NoPosts club ∅ := fun _ => rfl

theorem causalOrder_run_questionAndAnswer :
    (∀ s ∈ visited (postStep minuteBehind) .start questionAndAnswer,
        CausalOrder chessClub.clubName ∅ s) ↔
      ∀ x ∈ taken (postStep minuteBehind) .start questionAndAnswer,
        SubmitsInOrder minuteBehind chessClub.clubName x.1 x.2 :=
  causalOrder_run minuteBehind (noPosts_empty chessClub.clubName) questionAndAnswer

/-- The answer is listed below the question. -/
theorem answer_below_question :
    ¬ ∀ s ∈ visited (postStep minuteBehind) .start questionAndAnswer,
      CausalOrder chessClub.clubName ∅ s := by
  intro h
  have hlast := h _ (mem_visited.2 (.inr rfl))
  have hi : PostInv (exec (postStep minuteBehind) .start questionAndAnswer) :=
    exec_invariant PostInv.start (fun _ _ _ hi ht => postInv_step hi ht) questionAndAnswer
  have hgrow := (causalOrder_iff (noPosts_empty _) hi).1 hlast
    ⟨sampleAutoId, ann, "Who is coming?", 0⟩ ⟨answerAutoId, bob, "I am.", -60000000⟩ (.head _)
  rcases Prod.Lex.lt_iff.1 hgrow with hlt | ⟨heq, -⟩
  · exact absurd hlt (by decide)
  · exact absurd heq (by decide)

end TheHive
