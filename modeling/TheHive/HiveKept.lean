import TheHive.HivePages

/-!
# What is kept

* `Changes`, `view_settle_iff` — the writes that change what is kept at a reference.
* `Loses`, `kept_settle_iff` — the writes after which nothing is kept there.
* `kept_run` — **a content stays what it is exactly as long as no write that lands changes it, and
  its place stays filled exactly as long as none loses it**.
-/

set_option autoImplicit false

namespace TheHive

open DocStore TypedStore List

variable {intl : Intl} {db : Db} {w : Write} {r : Ref}

/-! ## Changes -/

/-- The write changes the content at the reference: it is replaced by something that reads
otherwise, or deleted; an event gets another count, a profile another school or time. -/
def Changes : ∀ r : Ref, Content r → Write → Prop
  | r, x, .set p d => p = r.path ∧ hiveSchema.read r d ≠ some x
  | .volunteer event, e, .update p d =>
    p = volunteerPath event ∧ Doc.int d .numberOfPeople ≠ some e.1.numberOfPeople
  | .profile u, x, .setMerge p d =>
    p = ["Users", u.email] ∧
      ¬ (Doc.str d .selectedSchool = Profile.selectedSchool x ∧
        Doc.timestamp d .timestamp = Profile.timestamp x)
  | r, _, .delete p => p = r.path
  | _, _, _ => False

/-- A write elsewhere changes nothing. -/
theorem not_changes_of_path_ne {x : Content r} (h : w.path ≠ r.path) : ¬ Changes r x w := by
  cases w with
  | set p d => exact fun hc => h hc.1
  | setMerge p d =>
    cases r with
    | profile u => exact fun hc => h hc.1
    | club | clubEvent | post | volunteer | member | entry => exact id
  | update p d =>
    cases r with
    | volunteer event => exact fun hc => h hc.1
    | club | clubEvent | post | member | entry | profile => exact id
  | delete p =>
    have hdelete : ¬ p = r.path := h
    cases r <;> exact hdelete

theorem VolunteerEvent.withCount_eq_self_iff {e : VolunteerEvent} {k : Int} :
    e.withCount k = e ↔ k = e.numberOfPeople := by
  constructor
  · exact fun h => congrArg VolunteerEvent.numberOfPeople h
  · rintro rfl
    rfl

theorem Profile.choice_eq_self_iff {x : Profile} {school : String} {now : Timestamp} :
    { x with selectedSchool := some school, timestamp := some now } = x ↔
      some school = x.selectedSchool ∧ some now = x.timestamp := by
  obtain ⟨email, username, selectedSchool, timestamp⟩ := x
  simp

/-- Another count. -/
theorem view_count_iff {event : DocId} {e : Content (.volunteer event)} (hs : hiveSchema.Sound db)
    (he : hiveSchema.view db (.volunteer event) = some e) (k : Int) :
    hiveSchema.view ((Write.update (volunteerPath event)
        (Doc.ofList [(.numberOfPeople, .int k)])).settle db) (.volunteer event) = some e ↔
      k = e.1.numberOfPeople := by
  rw [(denotes_count event k).view_settle hs]
  simp only [Op.run, Function.update_self, he]
  exact Option.some_inj.trans (Subtype.ext_iff.trans VolunteerEvent.withCount_eq_self_iff)

/-- Another school, or the same at another time. -/
theorem view_choice_iff {u : User} {x : Profile} (hs : hiveSchema.Sound db)
    (hx : hiveSchema.view db (.profile u) = some x) (school : String) (now : Timestamp) :
    hiveSchema.view ((Write.setMerge ["Users", u.email]
        (Doc.ofList [(.selectedSchool, .str school), (.timestamp, .timestamp now)])).settle db)
          (.profile u) = some x ↔
      some school = x.selectedSchool ∧ some now = x.timestamp := by
  rw [(denotes_choice u school now).view_settle hs]
  simp only [Op.run, Function.update_self, hx]
  exact Option.some_inj.trans Profile.choice_eq_self_iff

/-- **One write leaves a content as it is exactly when it does not change it.** -/
theorem view_settle_iff {x : Content r} (hdb : WellKept db) (hw : IsAppWrite w)
    (hx : hiveSchema.view db r = some x) :
    hiveSchema.view (w.settle db) r = some x ↔ ¬ Changes r x w := by
  by_cases hpath : w.path = r.path
  · obtain ⟨user, hwrite⟩ := hw.writes
    have hset : ∀ p d, p = r.path →
        (hiveSchema.view ((Write.set p d).settle db) r = some x ↔ ¬ Changes r x (.set p d)) := by
      rintro p d rfl
      rw [show hiveSchema.view ((Write.set r.path d).settle db) r = hiveSchema.read r d from
        view_insert]
      simp [Changes]
    cases hwrite with
    | shared | own | nobody => exact hset _ _ hpath
    | count hp k =>
      obtain rfl : _ = r.path := hpath
      obtain ⟨event, rfl⟩ := ref_of_volunteer hp
      refine (view_count_iff hdb.sound hx k).trans ?_
      simp [Changes, Ref.path, Doc.int, Doc.ofList]
    | @choice u hu school now =>
      obtain rfl : Ref.profile u = r := Ref.path_injective hpath
      refine (view_choice_iff hdb.sound hx school now).trans ?_
      simp only [Changes, true_and, not_not]
      exact Iff.rfl
    | delete hp =>
      obtain rfl : _ = r.path := hpath
      have hgone : hiveSchema.view ((Write.delete r.path).settle db) r = none :=
        view_of_not_stored (AList.lookup_erase _ _)
      rw [hgone]
      refine iff_of_false (by simp) fun hnot => hnot ?_
      cases r <;> rfl
  · rw [view_congr (S := hiveSchema) (Write.settle_frame (Ne.symm hpath))]
    exact iff_of_true hx (not_changes_of_path_ne hpath)

/-! ## Losses -/

/-- The write leaves the reference without a content.  Events are deleted, and a club may land on
an event of a club or on a post. -/
def Loses : Ref → Write → Prop
  | .clubEvent club event, w =>
    w = .delete (Ref.clubEvent club event).path ∨
      ∃ d, IsClubDoc d ∧ w = .set (Ref.clubEvent club event).path d
  | .post club i, w => ∃ d, IsClubDoc d ∧ w = .set (Ref.post club i).path d
  | .volunteer event, w => w = .delete (Ref.volunteer event).path
  | _, _ => False

/-- What a delete or a litter loses. -/
theorem loses_iff {r : Ref} {w : Write} (hw : IsAppWrite w) :
    Loses r w ↔ w = .delete r.path ∨ ∃ d, hiveSchema.litter r d ∧ w = .set r.path d := by
  obtain ⟨user, hwrite⟩ := hw.writes
  cases r with
  | clubEvent club event => exact Iff.rfl
  | post club i =>
    refine ⟨.inr, fun h => h.resolve_left fun hd => ?_⟩
    subst hd
    simpa using hwrite.of_delete
  | volunteer event =>
    refine ⟨.inl, fun h => h.resolve_right ?_⟩
    rintro ⟨d, hlitter, -⟩
    exact hlitter
  | club _ | member _ _ | entry _ _ | profile _ =>
    refine ⟨False.elim, fun h => ?_⟩
    rcases h with hd | ⟨d, hlitter, -⟩
    · subst hd
      simpa using hwrite.of_delete
    · exact hlitter

/-- Litter cannot be read. -/
theorem read_litter {r : Ref} {d : Doc} (h : hiveSchema.litter r d) : hiveSchema.read r d = none := by
  cases r with
  | clubEvent club event | post club i =>
    obtain ⟨clubName, clubDes, clubAdvisor, rfl⟩ := h
    rfl
  | club _ | volunteer _ | member _ _ | entry _ _ | profile _ => exact h.elim

/-- **One write loses what is kept exactly when it is a delete of it or a club on top of it.** -/
theorem kept_settle_iff {r : Ref} {w : Write} (hdb : WellKept db) (hw : IsAppWrite w)
    (hr : (hiveSchema.view db r).isSome) :
    (hiveSchema.view (w.settle db) r).isSome ↔ ¬ Loses r w := by
  rw [loses_iff hw]
  obtain ⟨op, hop⟩ := hw.denotes
  by_cases hpath : w.path = r.path
  · rw [hop.view_settle hdb.sound]
    cases hop with
    | put q c h =>
      cases Ref.path_injective hpath
      refine iff_of_true (by simp [Op.run]) ?_
      rintro (hdelete | ⟨d, hlitter, hset⟩)
      · cases hdelete
      · cases hset
        rw [read_litter hlitter] at h
        cases h
    | litter q h hlitter =>
      cases Ref.path_injective hpath
      exact iff_of_false (by simp [Op.run]) fun hnot => hnot (.inr ⟨_, hlitter, rfl⟩)
    | modify q f hfirm h =>
      cases Ref.path_injective hpath
      refine iff_of_true (by simpa [Op.run] using hr) ?_
      rintro (hdelete | ⟨d, hlitter, -⟩)
      · cases hdelete
      · exact hfirm d hlitter
    | merge q c f hfirm hempty h =>
      cases Ref.path_injective hpath
      refine iff_of_true (by simp [Op.run]) ?_
      rintro (hdelete | ⟨d, hlitter, -⟩)
      · cases hdelete
      · exact hfirm d hlitter
    | remove q =>
      cases Ref.path_injective hpath
      exact iff_of_false (by simp [Op.run]) fun hnot => hnot (.inl rfl)
    | elsewhere h => exact absurd hpath (h r)
  · rw [view_congr (S := hiveSchema) (Write.settle_frame (Ne.symm hpath))]
    refine iff_of_true hr ?_
    rintro (rfl | ⟨d, -, rfl⟩) <;> exact hpath rfl

/-- **A content stays what it is exactly as long as no write that lands changes it, and its place
stays filled exactly as long as no write that lands loses it**: from any reachable state on, for
all requests and orders. -/
theorem kept_run (intl : Intl) (hdb : WellKept db) (as bs : List (InFlight.Action Request)) (r : Ref)
    {x : Content r}
    (hx : hiveSchema.view (Transition.exec (cloudStep intl) (.start db) as).store r = some x) :
    ((∀ t ∈ Transition.visited (cloudStep intl) (Transition.exec (cloudStep intl) (.start db) as) bs,
        hiveSchema.view t.store r = some x) ↔
      ∀ w ∈ InFlight.landings (Transition.taken (cloudStep intl)
          (Transition.exec (cloudStep intl) (.start db) as) bs), ¬ Changes r x w) ∧
    ((∀ t ∈ Transition.visited (cloudStep intl) (Transition.exec (cloudStep intl) (.start db) as) bs,
        (hiveSchema.view t.store r).isSome) ↔
      ∀ w ∈ InFlight.landings (Transition.taken (cloudStep intl)
          (Transition.exec (cloudStep intl) (.start db) as) bs), ¬ Loses r w) := by
  have hreached := wellKept_visited intl hdb as _ (Transition.mem_visited.2 (.inr rfl))
  constructor
  · exact InFlight.visited_store_iff (P := IsAppWrite) (I := WellKept)
      (G := fun db => hiveSchema.view db r = some x) (C := fun w => ¬ Changes r x w)
      (isAppWrite_appWrites intl) (fun _ _ hw h => h.settle hw)
      (fun _ _ hw hk hg => view_settle_iff hk hw hg) hreached hx bs
  · exact InFlight.visited_store_iff (P := IsAppWrite) (I := WellKept)
      (G := fun db => (hiveSchema.view db r).isSome) (C := fun w => ¬ Loses r w)
      (isAppWrite_appWrites intl) (fun _ _ hw h => h.settle hw)
      (fun _ _ hw hk hg => kept_settle_iff hk hw hg) hreached (by rw [hx]; rfl) bs

/-- The meeting of the chess club, from its arrival on, when a club lands on it. -/
theorem kept_run_spoilingClub :
    ((∀ t ∈ Transition.visited (cloudStep marchThird)
        (Transition.exec (cloudStep marchThird) (.start ∅) (spoilingClub.take 3)) [.settle 0 true],
        hiveSchema.view t.store (.clubEvent chessClub.clubName ⟨"Meeting", by decide⟩) =
          some ⟨chessMeeting, rfl⟩) ↔
      ∀ w ∈ InFlight.landings (Transition.taken (cloudStep marchThird)
          (Transition.exec (cloudStep marchThird) (.start ∅) (spoilingClub.take 3)) [.settle 0 true]),
        ¬ Changes (.clubEvent chessClub.clubName ⟨"Meeting", by decide⟩) ⟨chessMeeting, rfl⟩ w) ∧
    ((∀ t ∈ Transition.visited (cloudStep marchThird)
        (Transition.exec (cloudStep marchThird) (.start ∅) (spoilingClub.take 3)) [.settle 0 true],
        (hiveSchema.view t.store (.clubEvent chessClub.clubName ⟨"Meeting", by decide⟩)).isSome) ↔
      ∀ w ∈ InFlight.landings (Transition.taken (cloudStep marchThird)
          (Transition.exec (cloudStep marchThird) (.start ∅) (spoilingClub.take 3)) [.settle 0 true]),
        ¬ Loses (.clubEvent chessClub.clubName ⟨"Meeting", by decide⟩) w) :=
  kept_run marchThird wellKept_empty (spoilingClub.take 3) [.settle 0 true]
    (.clubEvent chessClub.clubName ⟨"Meeting", by decide⟩) rfl

end TheHive
