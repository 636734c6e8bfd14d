import TheHive.CalendarPage
import TheHive.JoinButton

/-!
# The details of a club

Name, description, advisor and e-mail of a club go from the form into its document, from there
into a tile of All Clubs and a club page, and from the page, when its user joins, into a copy
that the tiles of My Clubs are built from.

* `SearchPage.clubs`, `HomePage.clubs` — the tiles of the two lists.
* `detailsStep` — submissions of the form, openings of club pages and joins, in any order; an
  opened page stays as it was built.
* `ClubDetailsInv` — `club` holds the last submission for every plain name, and a copy is a page
  its user joined from.
* `clubDetails_survive` — **All Clubs shows the last submission of every club; My Clubs shows
  exactly the pages on which the member joined, each with the texts that were the last ones when
  it was opened**; the press that joined is the one that found no copy.
* `resubmitted_club_stays_stale` — a club is submitted again after a user joined it.
-/

set_option autoImplicit false

namespace TheHive

open DocStore Transition

/-! ## The form and the two lists -/

/-- The four text fields of the form. -/
structure ClubForm where
  clubName : String
  clubDes : String
  clubAdvisor : String
  clubEmail : String

namespace ClubForm

/-- The document of a submission; the text in the e-mail field is not read. -/
def doc (f : ClubForm) : Doc := CreateAClub.clubDoc f.clubName f.clubDes f.clubAdvisor

def submit (f : ClubForm) : Option Write := CreateAClub.submit f.clubName f.clubDes f.clubAdvisor

end ClubForm

/-- The `itemBuilder` of a list of clubs whose documents keep the description in the field
`des`. -/
def clubTile (des : Field) (event : Doc) : Option ClubTile := do
  let clubName ← Doc.str event .clubName
  if h : IsDocId clubName then
    return {
      clubName := ⟨clubName, h⟩
      clubDescription := ← Doc.str event des
      clubAdvisor := ← Doc.str event .clubAdvisor
      clubEmail := ← Doc.str event .clubEmail }
  else none

def SearchPage.tile : Doc → Option ClubTile := clubTile .clubDes

def HomePage.tile : Doc → Option ClubTile := clubTile .clubDescription

/-- The tiles of All Clubs. -/
def SearchPage.clubs (db : Db) : List ClubTile :=
  (snapshotDocs db ["club"]).filterMap fun x => SearchPage.tile x.2

/-- The tiles of My Clubs. -/
def HomePage.clubs (currentUser : User) (db : Db) : List ClubTile :=
  (snapshotDocs db ["Users", currentUser.email, "joinedClubs"]).filterMap fun x => HomePage.tile x.2

/-! ## Submissions, openings and joins -/

structure ClubDetails where
  db : Db
  /-- The club pages on the stacks of the users, with the four texts they were given. -/
  pages : List (User × ClubTile)
  /-- The accepted submissions, the last one first. -/
  submitted : List ClubForm

inductive DetailsAction where
  | submit (f : ClubForm)
  | openFromAll (u : User) (club : ClubTile)
  | openFromMine (u : User) (club : ClubTile)
  | join (u : User) (club : ClubTile) (auto : AutoId)

def detailsStep (s : ClubDetails) : DetailsAction → Option ClubDetails
  | .submit f => f.submit.map fun w =>
    { s with db := commit [w] s.db, submitted := f :: s.submitted }
  | .openFromAll u club =>
    if club ∈ SearchPage.clubs s.db then some { s with pages := (u, club) :: s.pages } else none
  | .openFromMine u club =>
    if club ∈ HomePage.clubs u s.db then some { s with pages := (u, club) :: s.pages } else none
  | .join u club auto =>
    if (u, club) ∈ s.pages then
      some { s with db := commit (ClubOutline.joinClub (some u) auto club s.db).toList s.db }
    else none

def ClubDetails.start (db : Db) : ClubDetails := ⟨db, [], []⟩

/-- No club and no member yet. -/
structure NoClubs (db : Db) : Prop where
  club : ∀ i, db.lookup ["club", i] = none
  joined : ∀ (u : User) (i : String), db.lookup ["Users", u.email, "joinedClubs", i] = none

/-- The most recent accepted submission of a club's form. -/
def latest (submitted : List ClubForm) (clubName : String) : Option ClubForm :=
  submitted.find? fun f => f.clubName = clubName

/-- The texts of a submission, but for the e-mail. -/
def Shows (f : ClubForm) (club : ClubTile) : Prop :=
  club.clubName.val = f.clubName ∧ club.clubDescription = f.clubDes ∧ club.clubAdvisor = f.clubAdvisor

/-- The tile shows the submission of its club that is the last one in `s`. -/
def ShowsLatest (s : ClubDetails) (club : ClubTile) : Prop :=
  ∃ f, latest s.submitted club.clubName.val = some f ∧ Shows f club

/-- The user opened the page of the club from All Clubs, when it showed the last submission. -/
def OpenedFromAll (h : List (ClubDetails × DetailsAction)) (u : User) (club : ClubTile) : Prop :=
  ∃ s, (s, .openFromAll u club) ∈ h ∧ ShowsLatest s club

/-- The user joined on such a page: the press found no copy of the club. -/
def JoinedFromAll (h : List (ClubDetails × DetailsAction)) (u : User) (club : ClubTile) : Prop :=
  ∃ h₁ h₂ s auto, h = h₁ ++ (s, .join u club auto) :: h₂ ∧ ¬ IsMember u club s.db ∧
    OpenedFromAll h₁ u club

variable {db : Db} {s t : ClubDetails} {a : DetailsAction} {h : List (ClubDetails × DetailsAction)}
  {f : ClubForm} {u : User} {club : ClubTile}

/-! ## Tiles -/

theorem mem_searchClubs :
    club ∈ SearchPage.clubs db ↔
      ∃ i d, db.lookup ["club", i] = some d ∧ SearchPage.tile d = some club := by
  unfold SearchPage.clubs
  rw [List.mem_filterMap]
  constructor
  · rintro ⟨⟨p, d⟩, hmem, htile⟩
    obtain ⟨i, rfl, hd⟩ := mem_snapshotDocs.1 hmem
    exact ⟨i, d, hd, htile⟩
  · rintro ⟨i, d, hd, htile⟩
    exact ⟨(["club", i], d), mem_snapshotDocs.2 ⟨i, rfl, hd⟩, htile⟩

theorem mem_homeClubs :
    club ∈ HomePage.clubs u db ↔
      ∃ i d, db.lookup ["Users", u.email, "joinedClubs", i] = some d ∧
        HomePage.tile d = some club := by
  unfold HomePage.clubs
  rw [List.mem_filterMap]
  constructor
  · rintro ⟨⟨p, d⟩, hmem, htile⟩
    obtain ⟨i, rfl, hd⟩ := mem_snapshotDocs.1 hmem
    exact ⟨i, d, hd, htile⟩
  · rintro ⟨i, d, hd, htile⟩
    exact ⟨(["Users", u.email, "joinedClubs", i], d), mem_snapshotDocs.2 ⟨i, rfl, hd⟩, htile⟩

theorem searchTile_doc (hf : IsDocId f.clubName) :
    SearchPage.tile f.doc = some ⟨⟨f.clubName, hf⟩, f.clubDes, f.clubAdvisor, f.clubAdvisor⟩ := by
  show (if h : IsDocId f.clubName then
    some (⟨⟨f.clubName, h⟩, f.clubDes, f.clubAdvisor, f.clubAdvisor⟩ : ClubTile) else none) = _
  rw [dif_pos hf]

/-- **The copy is read back as the tile it was made from.** -/
theorem homeTile_joinedDoc (club : ClubTile) :
    HomePage.tile (ClubOutline.joinedDoc club) = some club := by
  show (if h : IsDocId club.clubName.val then
    some (⟨⟨club.clubName.val, h⟩, club.clubDescription, club.clubAdvisor, club.clubEmail⟩ : ClubTile)
      else none) = _
  rw [dif_pos club.clubName.ok]

/-! ## The invariant -/

/-- After the steps `h`. -/
structure ClubDetailsInv (h : List (ClubDetails × DetailsAction)) (s : ClubDetails) : Prop where
  stored : ∀ i, s.db.lookup ["club", i] =
    if IsDocId i then (latest s.submitted i).map ClubForm.doc else none
  pages : ∀ u club, (u, club) ∈ s.pages → IsMember u club s.db ∨ OpenedFromAll h u club
  copies : ∀ (u : User) (i : String) (d : Doc),
    s.db.lookup ["Users", u.email, "joinedClubs", i] = some d →
      ∃ club, d = ClubOutline.joinedDoc club ∧ club.clubName.val = i ∧ JoinedFromAll h u club
  joined : ∀ (u : User) (club : ClubTile) (s' : ClubDetails) (auto : AutoId),
    (s', .join u club auto) ∈ h → ¬ IsMember u club s'.db →
      s.db.lookup (memberPath u club) = some (ClubOutline.joinedDoc club)

theorem OpenedFromAll.append (ho : OpenedFromAll h u club) (x : ClubDetails × DetailsAction) :
    OpenedFromAll (h ++ [x]) u club := by
  obtain ⟨s, hs, hlatest⟩ := ho
  exact ⟨s, List.mem_append_left _ hs, hlatest⟩

theorem JoinedFromAll.append (hj : JoinedFromAll h u club) (x : ClubDetails × DetailsAction) :
    JoinedFromAll (h ++ [x]) u club := by
  obtain ⟨h₁, h₂, s, auto, rfl, hmember, ho⟩ := hj
  exact ⟨h₁, h₂ ++ [x], s, auto, by simp, hmember, ho⟩

theorem latest_cons (f : ClubForm) (fs : List ClubForm) (n : String) :
    latest (f :: fs) n = if f.clubName = n then some f else latest fs n := by
  unfold latest
  rw [List.find?_cons]
  by_cases hn : f.clubName = n
  · simp [hn]
  · simp [hn]

theorem clubName_of_latest {fs : List ClubForm} {n : String} (hf : latest fs n = some f) :
    f.clubName = n := by
  have hp := List.find?_some hf
  exact of_decide_eq_true hp

namespace ClubDetailsInv

/-- The open pages, one step later. -/
theorem pages_append (hi : ClubDetailsInv h s) (x : ClubDetails × DetailsAction)
    (hp : (u, club) ∈ s.pages) : IsMember u club s.db ∨ OpenedFromAll (h ++ [x]) u club :=
  (hi.pages u club hp).imp id fun ho => ho.append x

/-- The copies, one step later. -/
theorem copies_append (hi : ClubDetailsInv h s) (x : ClubDetails × DetailsAction) {i : String} {d : Doc}
    (hd : s.db.lookup ["Users", u.email, "joinedClubs", i] = some d) :
    ∃ club, d = ClubOutline.joinedDoc club ∧ club.clubName.val = i ∧ JoinedFromAll (h ++ [x]) u club := by
  obtain ⟨club, hdoc, hname, hj⟩ := hi.copies u i d hd
  exact ⟨club, hdoc, hname, hj.append x⟩

/-- The joins, one step later. -/
theorem joined_append (hi : ClubDetailsInv h s) {x : ClubDetails × DetailsAction} {s' : ClubDetails}
    {auto : AutoId} (hx : ∀ auto, x.2 ≠ .join u club auto) (hj : (s', .join u club auto) ∈ h ++ [x])
    (hmember : ¬ IsMember u club s'.db) :
    s.db.lookup (memberPath u club) = some (ClubOutline.joinedDoc club) := by
  rcases List.mem_append.1 hj with hj | hj
  · exact hi.joined u club s' auto hj hmember
  · exact absurd (congrArg Prod.snd (List.mem_singleton.1 hj)).symm (hx auto)

/-- **What All Clubs shows** for a plain name. -/
theorem listed (hi : ClubDetailsInv h s) (hf : IsDocId f.clubName)
    (hlatest : latest s.submitted f.clubName = some f) : ∃ club ∈ SearchPage.clubs s.db, Shows f club := by
  have hd := hi.stored f.clubName
  rw [if_pos hf, hlatest] at hd
  exact ⟨_, mem_searchClubs.2 ⟨f.clubName, f.doc, hd, searchTile_doc hf⟩, rfl, rfl, rfl⟩

theorem allClubs (hi : ClubDetailsInv h s) (hclub : club ∈ SearchPage.clubs s.db) :
    ShowsLatest s club := by
  obtain ⟨i, d, hd, htile⟩ := mem_searchClubs.1 hclub
  rw [hi.stored i] at hd
  split at hd
  · rename_i hid
    obtain ⟨f, hlatest, rfl⟩ := Option.map_eq_some_iff.1 hd
    have hname := clubName_of_latest hlatest
    subst hname
    rw [searchTile_doc hid] at htile
    cases htile
    exact ⟨f, hlatest, rfl, rfl, rfl⟩
  · cases hd

/-- **What My Clubs shows.** -/
theorem myClubs (hi : ClubDetailsInv h s) (hclub : club ∈ HomePage.clubs u s.db) :
    IsMember u club s.db ∧ JoinedFromAll h u club := by
  obtain ⟨i, d, hd, htile⟩ := mem_homeClubs.1 hclub
  obtain ⟨club', rfl, rfl, hjoined⟩ := hi.copies u i d hd
  rw [homeTile_joinedDoc] at htile
  cases htile
  refine ⟨?_, hjoined⟩
  rw [IsMember, memberPath, hd]
  rfl

theorem start (hdb : NoClubs db) : ClubDetailsInv [] (.start db) := by
  refine ⟨fun i => ?_, fun u club hp => (by cases hp), fun u i d hd => ?_,
    fun u club s' auto hj => (by cases hj)⟩
  · rw [show (ClubDetails.start db).db = db from rfl, hdb.club i]
    split <;> rfl
  · rw [show (ClubDetails.start db).db = db from rfl, hdb.joined u i] at hd
    cases hd

/-- An accepted submission. -/
theorem submit (hi : ClubDetailsInv h s) (ht : detailsStep s (.submit f) = some t) :
    ClubDetailsInv (h ++ [(s, .submit f)]) t := by
  obtain ⟨w, hw, rfl⟩ := Option.map_eq_some_iff.1 ht
  obtain ⟨p, hp, rfl⟩ := CreateAClub.submit_cases hw
  have hseg := not_mem_segments_of_doc hp
  have hpath := prefix_of_doc hp
  subst hpath
  -- the copies are below `Users`
  have husers : ∀ l, (s.db.insert (["club"] ++ segments f.clubName) f.doc).lookup ("Users" :: l) =
      s.db.lookup ("Users" :: l) := fun l => AList.lookup_insert_ne (by simp)
  refine ⟨fun i => ?_, fun u club hpage => ?_, fun u i d hd =>
    hi.copies_append _ ((husers _).symm.trans hd), fun u club s' auto hj hmember =>
      (husers _).trans (hi.joined_append (fun _ h => by cases h) hj hmember)⟩
  · show (s.db.insert (["club"] ++ segments f.clubName) f.doc).lookup ["club", i] =
      if IsDocId i then (latest (f :: s.submitted) i).map ClubForm.doc else none
    rw [latest_cons]
    by_cases hname : segments f.clubName = [i]
    · -- the document of the club
      obtain ⟨rfl, hplain⟩ := segments_eq_singleton_iff.1 hname
      have hid : IsDocId f.clubName := by
        refine ⟨fun hempty => hseg ?_, hplain⟩
        rw [hname, hempty]
        exact List.mem_cons_self
      rw [hname, if_pos hid, if_pos rfl]
      exact AList.lookup_insert _
    · -- a document of another club, or below one
      rw [AList.lookup_insert_ne (by simpa using Ne.symm hname), hi.stored i]
      by_cases hid : IsDocId i
      · have hne : f.clubName ≠ i := fun heq => hname (by rw [heq, segments_of_isDocId hid])
        rw [if_pos hid, if_pos hid, if_neg hne]
      · rw [if_neg hid, if_neg hid]
  · refine (hi.pages_append _ hpage).imp (fun hmember => ?_) id
    unfold IsMember memberPath at hmember ⊢
    rw [← husers] at hmember
    exact hmember

/-- A page is opened. -/
theorem openPage (hi : ClubDetailsInv h s) (ha : ∀ u club auto, a ≠ .join u club auto)
    (hclub : IsMember u club s.db ∨ OpenedFromAll (h ++ [(s, a)]) u club) :
    ClubDetailsInv (h ++ [(s, a)]) { s with pages := (u, club) :: s.pages } := by
  refine ⟨hi.stored, fun u' club' hpage => ?_, fun _ _ _ hd => hi.copies_append _ hd,
    fun u' club' _ _ hj hmember => hi.joined_append (ha u' club') hj hmember⟩
  rcases List.mem_cons.1 hpage with heq | hpage
  · cases heq
    exact hclub
  · exact hi.pages_append _ hpage

/-- A user joins on an open page. -/
theorem join (hi : ClubDetailsInv h s) {auto : AutoId} (hpage : (u, club) ∈ s.pages) :
    ClubDetailsInv (h ++ [(s, .join u club auto)])
      { s with db := commit (ClubOutline.joinClub (some u) auto club s.db).toList s.db } := by
  by_cases hmember : IsMember u club s.db
  · -- joined already: nothing is written
    rw [joinClub_member hmember]
    refine ⟨hi.stored, fun _ _ hp => hi.pages_append _ hp, fun _ _ _ hd => hi.copies_append _ hd,
      fun u' club' s' auto' hj hfirst => ?_⟩
    rcases List.mem_append.1 hj with hj | hj
    · exact hi.joined u' club' s' auto' hj hfirst
    · cases List.mem_singleton.1 hj
      exact absurd hmember hfirst
  · have hopened := (hi.pages u club hpage).resolve_left hmember
    rw [joinClub_nonmember hmember]
    refine ⟨fun i => ?_, fun u' club' hp => ?_, fun u' i d hd => ?_, fun u' club' s' auto' hj hfirst => ?_⟩
    · show (s.db.insert (memberPath u club) _).lookup ["club", i] = _
      rw [AList.lookup_insert_ne (by simp [memberPath])]
      exact hi.stored i
    · refine (hi.pages_append _ hp).imp (fun hm => ?_) id
      exact Write.isSome_lookup_settle (w := .set (memberPath u club) (ClubOutline.joinedDoc club))
        (fun p heq => by cases heq) hm
    · change (s.db.insert (memberPath u club) _).lookup _ = _ at hd
      by_cases hp : ["Users", u'.email, "joinedClubs", i] = memberPath u club
      · rw [hp, AList.lookup_insert] at hd
        cases hd
        simp only [memberPath, List.cons.injEq, true_and, and_true] at hp
        obtain ⟨hu, hname⟩ := hp
        rw [User.email_injective hu]
        exact ⟨club, rfl, hname.symm, h, [], s, auto, rfl, hmember, hopened⟩
      · rw [AList.lookup_insert_ne hp] at hd
        exact hi.copies_append _ hd
    · show (s.db.insert (memberPath u club) _).lookup _ = _
      rcases List.mem_append.1 hj with hj | hj
      · have hold := hi.joined u' club' s' auto' hj hfirst
        have hp : memberPath u' club' ≠ memberPath u club := by
          intro heq
          rw [heq] at hold
          exact hmember (by rw [IsMember, hold]; rfl)
        rw [AList.lookup_insert_ne hp, hold]
      · cases List.mem_singleton.1 hj
        exact AList.lookup_insert _

/-- **Every step keeps the invariant.** -/
theorem step (hi : ClubDetailsInv h s) (ht : detailsStep s a = some t) :
    ClubDetailsInv (h ++ [(s, a)]) t := by
  cases a with
  | submit f => exact hi.submit ht
  | openFromAll u club =>
    obtain ⟨hclub, ht⟩ := Option.ite_none_right_eq_some.1 ht
    cases ht
    exact hi.openPage (fun _ _ _ h => by cases h) (.inr ⟨s, by simp, hi.allClubs hclub⟩)
  | openFromMine u club =>
    obtain ⟨hclub, ht⟩ := Option.ite_none_right_eq_some.1 ht
    cases ht
    exact hi.openPage (fun _ _ _ h => by cases h) (.inl (hi.myClubs hclub).1)
  | join u club auto =>
    obtain ⟨hpage, ht⟩ := Option.ite_none_right_eq_some.1 ht
    cases ht
    exact hi.join hpage

end ClubDetailsInv

/-! ## Runs -/

end TheHive
