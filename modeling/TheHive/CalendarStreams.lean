import TheHive.Lib.RxStream
import TheHive.CalendarTab

/-!
# The streams behind My Calendar

`CalendarPage` combines the snapshots of the clubs that were read, flattens them, and combines the
result with the snapshots of the user's entries.

* `CalendarDelivery` — a snapshot, or a failure, of one of the subscribed streams.
* `CalendarStreams.getClubEvents`, `getVolunteerEvents`, `mergedEvents` — the streams as the page
  builds them.
* `latestEvents` — the last snapshots of all streams, in the order of the clubs.
* `mergedEvents_data` — the two nested combinations are one flat one.
* `mergedEvents_emits` — **without failures the stream emits exactly once every stream has
  delivered, and then the last snapshots in order**.
* `recovers_iff` — **when clubs fail, the page recovers exactly when every failing club has
  delivered a snapshot**.
* `eventSnapshot_eq_lastEvent` — what the tab takes for the value of the stream is its last
  event.
* `failing_club_blanks` — a club fails before its first snapshot.
-/

set_option autoImplicit false

namespace TheHive

open DocStore RxStream RxStream.EventStream

/-- The documents of a snapshot. -/
abbrev Shot := List (Path × Doc)

inductive CalendarDelivery (joinedClubs : List String) where
  | club (i : Fin joinedClubs.length) (e : Event Shot)
  | volunteer (e : Event Shot)

namespace CalendarStreams

variable {joinedClubs : List String}

/-- The snapshots of the `i`-th club. -/
def clubEventStream (i : Fin joinedClubs.length) : EventStream (CalendarDelivery joinedClubs) Shot :=
  .source fun
    | .club j e => if j = i then some e else none
    | .volunteer _ => none

def getClubEvents (joinedClubs : List String) : EventStream (CalendarDelivery joinedClubs) Shot :=
  if joinedClubs.isEmpty then .value []
  else
    ((combineLatestList ((List.finRange joinedClubs.length).map clubEventStream)).map
      List.flatten).handleError

def getVolunteerEvents (joinedClubs : List String) : EventStream (CalendarDelivery joinedClubs) Shot :=
  .source fun
    | .club _ _ => none
    | .volunteer e => some e

/-- The stream of the page. -/
def mergedEvents (joinedClubs : List String) : EventStream (CalendarDelivery joinedClubs) Shot :=
  combineLatest2 (fun clubEvents volunteerEvents => clubEvents ++ volunteerEvents)
    (getClubEvents joinedClubs) (getVolunteerEvents joinedClubs)

/-! ## The last snapshots -/

/-- The last snapshot of the `i`-th club; the latest delivery comes first. -/
def clubShot (h : List (CalendarDelivery joinedClubs)) (i : Fin joinedClubs.length) : Option Shot :=
  h.findSome? fun
    | .club j (.data docs) => if j = i then some docs else none
    | _ => none

def volunteerShot (h : List (CalendarDelivery joinedClubs)) : Option Shot :=
  h.findSome? fun
    | .volunteer (.data docs) => some docs
    | _ => none

/-- The last snapshots of the clubs, in their order, and the last one of the entries. -/
def latestEvents (h : List (CalendarDelivery joinedClubs)) : Option Shot :=
  (((List.finRange joinedClubs.length).mapM (clubShot h)).map List.flatten).bind fun clubEvents =>
    (volunteerShot h).map fun volunteerEvents => clubEvents ++ volunteerEvents

variable {h : List (CalendarDelivery joinedClubs)} {d : CalendarDelivery joinedClubs}

theorem latest_clubEventStream (h : List (CalendarDelivery joinedClubs)) (i : Fin joinedClubs.length) :
    (clubEventStream i).latest h = clubShot h i := by
  rw [clubEventStream, latest_source, clubShot]
  congr 1
  funext d
  cases d with
  | club j e =>
    cases e with
    | data docs =>
      show Option.bind (if j = i then some (Event.data docs) else none) Event.toOption =
        if j = i then some docs else none
      split <;> rfl
    | error =>
      show Option.bind (if j = i then some Event.error else none) Event.toOption = _
      split <;> rfl
  | volunteer e => cases e <;> rfl

theorem latest_getVolunteerEvents (h : List (CalendarDelivery joinedClubs)) :
    (getVolunteerEvents joinedClubs).latest h = volunteerShot h := by
  rw [getVolunteerEvents, latest_source, volunteerShot]
  congr 1
  funext d
  cases d with
  | club j e => cases e <;> rfl
  | volunteer e => cases e <;> rfl

/-- The streams of the clubs are there as soon as there is a club. -/
theorem clubEventStreams_ne_nil (hne : joinedClubs ≠ []) :
    (List.finRange joinedClubs.length).map clubEventStream ≠
      ([] : List (EventStream (CalendarDelivery joinedClubs) Shot)) := by
  simpa using hne

/-- The stream for at least one club. -/
theorem getClubEvents_of_ne (hne : joinedClubs ≠ []) :
    getClubEvents joinedClubs =
      ((combineLatestList ((List.finRange joinedClubs.length).map clubEventStream)).map
        List.flatten).handleError := by
  rw [getClubEvents, if_neg]
  simpa using hne

/-- **The last list of club events**: the clubs' last snapshots, once each has one. -/
theorem latest_getClubEvents (h : List (CalendarDelivery joinedClubs)) :
    (getClubEvents joinedClubs).latest h =
      ((List.finRange joinedClubs.length).mapM (clubShot h)).map List.flatten := by
  rcases eq_or_ne joinedClubs [] with rfl | hne
  · exact latest_value [] h
  · rw [getClubEvents_of_ne hne, latest_handleError, latest_map,
      latest_combineLatestList (clubEventStreams_ne_nil hne), List.mapM_map]
    congr 1
    exact mapM_congr_mem fun i _ => latest_clubEventStream h i

/-! ## What the page's stream emits -/

/-- Neither a snapshot of another stream nor a failed club reaches the page as club events. -/
theorem getClubEvents_eq_none (hnone : (getClubEvents joinedClubs).data h = none) :
    getClubEvents joinedClubs h = none := by
  rcases eq_or_ne joinedClubs [] with rfl | hne
  · cases h with
    | nil => cases hnone
    | cons d h => rfl
  · rw [getClubEvents_of_ne hne, data_handleError] at hnone
    rw [getClubEvents_of_ne hne]
    exact handleError_eq_none hnone

/-- A club has data exactly at its own snapshots. -/
theorem clubEventStream_data_isSome {i : Fin joinedClubs.length} :
    ((clubEventStream i).data (d :: h)).isSome ↔ ∃ docs, d = .club i (.data docs) := by
  cases d with
  | volunteer e => exact ⟨fun hsome => (by cases hsome), fun ⟨docs, heq⟩ => (by cases heq)⟩
  | club j e =>
    show (Option.bind (if j = i then some e else none) Event.toOption).isSome ↔ _
    by_cases hj : j = i
    · subst hj
      cases e with
      | data docs => simp [Event.toOption]
      | error => simp [Event.toOption]
    · simp [hj]

/-- Some club has data exactly at the snapshot of one. -/
theorem exists_club_data :
    (∃ s ∈ (List.finRange joinedClubs.length).map clubEventStream, (data s (d :: h)).isSome) ↔
      ∃ i docs, d = .club i (.data docs) := by
  constructor
  · rintro ⟨s, hs, hsome⟩
    obtain ⟨i, -, rfl⟩ := List.mem_map.1 hs
    exact ⟨i, clubEventStream_data_isSome.1 hsome⟩
  · rintro ⟨i, hd⟩
    exact ⟨clubEventStream i, List.mem_map_of_mem (List.mem_finRange i),
      clubEventStream_data_isSome.2 hd⟩

/-- The events of the clubs at a delivery. -/
theorem data_getClubEvents (d : CalendarDelivery joinedClubs) (h : List (CalendarDelivery joinedClubs)) :
    (getClubEvents joinedClubs).data (d :: h) =
      match d with
      | .club _ (.data _) => (getClubEvents joinedClubs).latest (d :: h)
      | _ => none := by
  rcases eq_or_ne joinedClubs [] with rfl | hne
  · cases d with
    | club i e => exact i.elim0
    | volunteer e => rfl
  · rw [getClubEvents_of_ne hne, data_handleError, data_map, latest_handleError, latest_map,
      latest_combineLatestList (clubEventStreams_ne_nil hne), data_combineLatestList]
    cases d with
    | volunteer e =>
      rw [if_neg fun hex => by obtain ⟨i, docs, heq⟩ := exists_club_data.1 hex; cases heq]
      rfl
    | club i e =>
      cases e with
      | data docs => rw [if_pos (exists_club_data.2 ⟨i, docs, rfl⟩)]
      | error =>
        rw [if_neg fun hex => by obtain ⟨i, docs, heq⟩ := exists_club_data.1 hex; cases heq]
        rfl

/-- The delivery is a snapshot. -/
def IsSnapshot : CalendarDelivery joinedClubs → Prop
  | .club _ (.data _) | .volunteer (.data _) => True
  | _ => False

/-- **The two combinations, one inside the other, are one**: at every snapshot they emit the last
snapshots of all streams, once each has one. -/
theorem mergedEvents_data (hd : IsSnapshot d) :
    mergedEvents joinedClubs (d :: h) = (latestEvents (d :: h)).map .data := by
  have hrule : ((getClubEvents joinedClubs).data (d :: h)).isSome ∨
      ((getVolunteerEvents joinedClubs).data (d :: h)).isSome →
        mergedEvents joinedClubs (d :: h) = (latestEvents (d :: h)).map .data := by
    intro hdata
    rw [mergedEvents, combineLatest2_of_data _ hdata, latest_getClubEvents, latest_getVolunteerEvents]
    rfl
  cases d with
  | volunteer e =>
    cases e with
    | data docs => exact hrule (.inr rfl)
    | error => cases hd
  | club i e =>
    cases e with
    | error => cases hd
    | data docs =>
      have hclubs := data_getClubEvents (.club i (.data docs)) h
      dsimp only at hclubs
      cases hlatest : (getClubEvents joinedClubs).latest (.club i (.data docs) :: h) with
      | some events =>
        rw [hlatest] at hclubs
        exact hrule (.inl (by rw [hclubs]; rfl))
      | none =>
        -- some club has no snapshot yet
        rw [hlatest] at hclubs
        rw [mergedEvents, combineLatest2_of_none _ (getClubEvents_eq_none hclubs) rfl, latestEvents,
          ← latest_getClubEvents, hlatest]
        rfl

/-- The failure of a club emits nothing. -/
theorem mergedEvents_error (i : Fin joinedClubs.length) :
    mergedEvents joinedClubs (.club i .error :: h) = none := by
  have hclubs := data_getClubEvents (.club i .error) h
  exact combineLatest2_of_none _ (getClubEvents_eq_none hclubs) rfl

/-- Nothing is emitted before the first delivery. -/
theorem mergedEvents_nil : mergedEvents joinedClubs [] = none := by
  cases hclubs : (getClubEvents joinedClubs).data [] with
  | none => exact combineLatest2_of_none _ (getClubEvents_eq_none hclubs) rfl
  | some events =>
    rw [mergedEvents, combineLatest2_of_data _ (.inl (by rw [hclubs]; rfl)),
      latest_getVolunteerEvents]
    cases (getClubEvents joinedClubs).latest [] <;> rfl

/-! ## Every stream has delivered -/

/-- Every stream has delivered a snapshot. -/
structure AllDelivered (ds : List (CalendarDelivery joinedClubs)) : Prop where
  clubs : ∀ i, ∃ docs, .club i (.data docs) ∈ ds
  volunteer : ∃ docs, .volunteer (.data docs) ∈ ds

theorem clubShot_isSome_iff {i : Fin joinedClubs.length} :
    (clubShot h i).isSome ↔ ∃ docs, .club i (.data docs) ∈ h := by
  rw [clubShot, List.findSome?_isSome_iff]
  constructor
  · rintro ⟨d, hd, hsome⟩
    split at hsome
    · split at hsome
      · subst_vars
        exact ⟨_, hd⟩
      · cases hsome
    · cases hsome
  · rintro ⟨docs, hd⟩
    exact ⟨_, hd, by simp⟩

theorem volunteerShot_isSome_iff :
    (volunteerShot h).isSome ↔ ∃ docs, .volunteer (.data docs) ∈ h := by
  rw [volunteerShot, List.findSome?_isSome_iff]
  constructor
  · rintro ⟨d, hd, hsome⟩
    split at hsome
    · exact ⟨_, hd⟩
    · cases hsome
  · rintro ⟨docs, hd⟩
    exact ⟨_, hd, rfl⟩

theorem latestEvents_isSome_iff : (latestEvents h).isSome ↔ AllDelivered h := by
  have hclubs : ((List.finRange joinedClubs.length).mapM (clubShot h)).isSome ↔
      ∀ i, ∃ docs, .club i (.data docs) ∈ h := by
    rw [isSome_mapM]
    exact ⟨fun hall i => clubShot_isSome_iff.1 (hall i (List.mem_finRange i)),
      fun hall i _ => clubShot_isSome_iff.2 (hall i)⟩
  unfold latestEvents
  constructor
  · intro hsome
    cases hlist : (List.finRange joinedClubs.length).mapM (clubShot h) with
    | none => rw [hlist] at hsome; cases hsome
    | some events =>
      rw [hlist] at hsome hclubs
      refine ⟨hclubs.1 rfl, volunteerShot_isSome_iff.1 ?_⟩
      cases hv : volunteerShot h with
      | none => rw [hv] at hsome; cases hsome
      | some docs => rfl
  · rintro ⟨hall, hvolunteer⟩
    obtain ⟨events, hevents⟩ := Option.isSome_iff_exists.1 (hclubs.2 hall)
    obtain ⟨docs, hdocs⟩ := Option.isSome_iff_exists.1 (volunteerShot_isSome_iff.2 hvolunteer)
    rw [hevents, hdocs]
    rfl

theorem AllDelivered.cons (hall : AllDelivered h) (d : CalendarDelivery joinedClubs) :
    AllDelivered (d :: h) := by
  refine ⟨fun i => ?_, ?_⟩
  · obtain ⟨docs, hmem⟩ := hall.clubs i
    exact ⟨docs, List.mem_cons_of_mem d hmem⟩
  · obtain ⟨docs, hmem⟩ := hall.volunteer
    exact ⟨docs, List.mem_cons_of_mem d hmem⟩

theorem allDelivered_reverse {ds : List (CalendarDelivery joinedClubs)} :
    AllDelivered ds.reverse ↔ AllDelivered ds := by
  constructor
  · rintro ⟨hclubs, hvolunteer⟩
    exact ⟨by simpa using hclubs, by simpa using hvolunteer⟩
  · rintro ⟨hclubs, hvolunteer⟩
    exact ⟨by simpa using hclubs, by simpa using hvolunteer⟩

/-- After the deliveries `h` the stream emits if and only if every stream has delivered, and then
the last snapshots of the clubs, in their order, followed by the last one of the entries. -/
structure EmitsLatest (h : List (CalendarDelivery joinedClubs)) : Prop where
  emits : (mergedEvents joinedClubs h).isSome ↔ AllDelivered h
  value : ∀ e, mergedEvents joinedClubs h = some e →
    e = .data (((List.finRange joinedClubs.length).flatMap fun i => (clubShot h i).getD []) ++
      (volunteerShot h).getD [])

/-- The last snapshots, once all are there. -/
theorem latestEvents_eq {events : Shot} (hevents : latestEvents h = some events) :
    events = ((List.finRange joinedClubs.length).flatMap fun i => (clubShot h i).getD []) ++
      (volunteerShot h).getD [] := by
  have hall := latestEvents_isSome_iff.1 (Option.isSome_of_eq_some hevents)
  have hclubs : (List.finRange joinedClubs.length).mapM (clubShot h) =
      some ((List.finRange joinedClubs.length).map fun i => (clubShot h i).getD []) := by
    refine mapM_eq_some_map fun i _ => ?_
    obtain ⟨docs, hdocs⟩ := Option.isSome_iff_exists.1 (clubShot_isSome_iff.2 (hall.clubs i))
    rw [hdocs]
    rfl
  obtain ⟨docs, hdocs⟩ := Option.isSome_iff_exists.1 (volunteerShot_isSome_iff.2 hall.volunteer)
  rw [latestEvents, hclubs, hdocs] at hevents
  rw [hdocs, List.flatMap_def]
  exact (Option.some.inj hevents).symm

/-- **Without failures, the stream of the page emits at exactly those deliveries at which every
stream has delivered**, and then the last snapshots in order. -/
theorem mergedEvents_emits (ds : List (CalendarDelivery joinedClubs)) (hok : ∀ d ∈ ds, IsSnapshot d)
    {pre : List (CalendarDelivery joinedClubs)} (hpre : pre <+: ds) : EmitsLatest pre.reverse := by
  have hstream : mergedEvents joinedClubs pre.reverse = (latestEvents pre.reverse).map .data := by
    cases hrev : pre.reverse with
    | nil =>
      have hnone : latestEvents ([] : List (CalendarDelivery joinedClubs)) = none := by
        rw [← Option.not_isSome_iff_eq_none, latestEvents_isSome_iff]
        intro hall
        obtain ⟨docs, hmem⟩ := hall.volunteer
        cases hmem
      rw [mergedEvents_nil, hnone]
      rfl
    | cons d h =>
      have hmem : d ∈ pre := List.mem_reverse.1 (by rw [hrev]; exact List.mem_cons_self)
      exact mergedEvents_data (hok d (hpre.subset hmem))
  constructor
  · rw [hstream, Option.isSome_map, latestEvents_isSome_iff]
  · intro e he
    rw [hstream] at he
    obtain ⟨events, hevents, rfl⟩ := Option.map_eq_some_iff.1 he
    rw [latestEvents_eq hevents]

/-! ## Failing clubs -/

/-- **The last event of the stream**: the last snapshots of all streams, whatever clubs have failed. -/
theorem lastEvent_mergedEvents (hvolunteer : .volunteer .error ∉ h) :
    lastEvent (mergedEvents joinedClubs) h = (latestEvents h).map .data := by
  induction h with
  | nil =>
    rw [lastEvent, mergedEvents_nil, eq_comm, Option.map_eq_none_iff, ← Option.not_isSome_iff_eq_none,
      latestEvents_isSome_iff]
    rintro ⟨-, docs, hmem⟩
    cases hmem
  | cons d h ih =>
    have hlast := ih fun hmem => hvolunteer (List.mem_cons_of_mem d hmem)
    -- a snapshot emits what there is
    have hsnapshot : IsSnapshot d →
        lastEvent (mergedEvents joinedClubs) (d :: h) = (latestEvents (d :: h)).map .data := by
      intro hd
      rw [lastEvent, mergedEvents_data hd, hlast]
      cases hnow : latestEvents (d :: h) with
      | some events => rfl
      | none =>
        have hbefore : latestEvents h = none := by
          rw [← Option.not_isSome_iff_eq_none, latestEvents_isSome_iff] at hnow ⊢
          exact fun hall => hnow (hall.cons d)
        rw [hbefore]
        rfl
    cases d with
    | volunteer e =>
      cases e with
      | data docs => exact hsnapshot trivial
      | error => exact absurd List.mem_cons_self hvolunteer
    | club i e =>
      cases e with
      | data docs => exact hsnapshot trivial
      | error =>
        -- a failure changes no snapshot
        rw [lastEvent, mergedEvents_error, Option.none_or, hlast]
        rfl

/-- Some clubs fail and deliver nothing afterwards; the entries and the other clubs deliver. -/
structure ClubsFail (ds : List (CalendarDelivery joinedClubs)) : Prop where
  closed : ∀ ds₁ i ds₂, ds = ds₁ ++ .club i .error :: ds₂ → ∀ e, .club i e ∉ ds₂
  volunteer_ok : .volunteer .error ∉ ds
  volunteer : ∃ docs, .volunteer (.data docs) ∈ ds
  others : ∀ i, .club i .error ∉ ds → ∃ docs, .club i (.data docs) ∈ ds

/-- The stream has emitted, and its last event has all entries of the last snapshot. -/
def Recovers (ds : List (CalendarDelivery joinedClubs)) : Prop :=
  ∃ events, lastEvent (mergedEvents joinedClubs) ds.reverse = some (.data events) ∧
    ∀ docs, volunteerShot ds.reverse = some docs → docs ⊆ events

/-- **The page recovers from failing clubs exactly when** each of them had delivered a snapshot
before it failed. -/
theorem recovers_iff {ds : List (CalendarDelivery joinedClubs)} (hfail : ClubsFail ds) :
    Recovers ds ↔
      ∀ ds₁ i ds₂, ds = ds₁ ++ .club i .error :: ds₂ → ∃ docs, .club i (.data docs) ∈ ds₁ := by
  have hlast : lastEvent (mergedEvents joinedClubs) ds.reverse = (latestEvents ds.reverse).map .data :=
    lastEvent_mergedEvents fun hmem => hfail.volunteer_ok (List.mem_reverse.1 hmem)
  constructor
  · rintro ⟨events, hevents, -⟩ ds₁ i ds₂ hds
    rw [hlast] at hevents
    obtain ⟨events', hlatest, -⟩ := Option.map_eq_some_iff.1 hevents
    have hall := allDelivered_reverse.1 (latestEvents_isSome_iff.1 (Option.isSome_of_eq_some hlatest))
    obtain ⟨docs, hmem⟩ := hall.clubs i
    rw [hds] at hmem
    rcases List.mem_append.1 hmem with hmem | hmem
    · exact ⟨docs, hmem⟩
    · rcases List.mem_cons.1 hmem with heq | hmem
      · cases heq
      · exact absurd hmem (hfail.closed ds₁ i ds₂ hds _)
  · intro hbefore
    have hall : AllDelivered ds := by
      refine ⟨fun i => ?_, hfail.volunteer⟩
      by_cases herror : .club i .error ∈ ds
      · obtain ⟨ds₁, ds₂, hds⟩ := List.append_of_mem herror
        obtain ⟨docs, hmem⟩ := hbefore ds₁ i ds₂ hds
        rw [hds]
        exact ⟨docs, List.mem_append_left _ hmem⟩
      · exact hfail.others i herror
    obtain ⟨events, hevents⟩ :=
      Option.isSome_iff_exists.1 (latestEvents_isSome_iff.2 (allDelivered_reverse.2 hall))
    rw [hevents] at hlast
    refine ⟨events, hlast, fun docs hdocs => ?_⟩
    rw [latestEvents_eq hevents, hdocs]
    exact List.subset_append_right _ docs

/-! ## The tab -/

/-- **What the tab takes for the value of the stream** is its last event. -/
theorem eventSnapshot_eq_lastEvent {s : CalendarTab} (hvolunteer : .volunteer .error ∉ h)
    (hclubs : ∀ i : Fin joinedClubs.length, s.clubShots (joinedClubs.get i) = clubShot h i)
    (hentries : s.volunteerShot = volunteerShot h) :
    (s.eventSnapshot joinedClubs).map .data = lastEvent (mergedEvents joinedClubs) h := by
  have hmap : joinedClubs.mapM s.clubShots = (List.finRange joinedClubs.length).mapM (clubShot h) := by
    calc joinedClubs.mapM s.clubShots
        = ((List.finRange joinedClubs.length).map joinedClubs.get).mapM s.clubShots := by
          rw [List.map_get_finRange]
      _ = (List.finRange joinedClubs.length).mapM (s.clubShots ∘ joinedClubs.get) := List.mapM_map
      _ = (List.finRange joinedClubs.length).mapM (clubShot h) := mapM_congr_mem fun i _ => hclubs i
  rw [lastEvent_mergedEvents hvolunteer, CalendarTab.eventSnapshot, hmap, hentries, latestEvents]
  cases (List.finRange joinedClubs.length).mapM (clubShot h) <;> cases volunteerShot h <;> rfl

/-! ## Samples -/

/-- The user's entry for the food drive. -/
def foodDriveShot : Shot := [(["Users", "ann@school.org", "myVolunteerEvents", "Food Drive"], foodDrive.doc)]

/-- The chess club delivers, and then the user's entries. -/
def bothDeliver : List (CalendarDelivery ["Chess"]) := [.club 0 (.data []), .volunteer (.data foodDriveShot)]

theorem mergedEvents_emits_bothDeliver : EmitsLatest bothDeliver.reverse :=
  mergedEvents_emits bothDeliver (by simp [bothDeliver, IsSnapshot]) (List.prefix_refl _)

/-- The chess club fails at once. -/
def clubFails : List (CalendarDelivery ["Chess"]) := [.club 0 .error, .volunteer (.data foodDriveShot)]

theorem clubsFail_clubFails : ClubsFail clubFails := by
  refine ⟨?_, by simp [clubFails], ⟨foodDriveShot, by simp [clubFails]⟩, fun i hi => ?_⟩
  · intro ds₁ i ds₂ hds e hmem
    rcases ds₁ with _ | ⟨x, _ | ⟨y, ds₁⟩⟩
    · cases hds
      simp at hmem
    · simp [clubFails] at hds
    · simp [clubFails] at hds
  · obtain ⟨_ | n, hlt⟩ := i
    · exact absurd List.mem_cons_self hi
    · simp at hlt

theorem recovers_iff_clubFails :
    Recovers clubFails ↔
      ∀ ds₁ i ds₂, clubFails = ds₁ ++ .club i .error :: ds₂ → ∃ docs, .club i (.data docs) ∈ ds₁ :=
  recovers_iff clubsFail_clubFails

/-- The page shows nothing. -/
theorem failing_club_blanks : ClubsFail clubFails ∧ ¬ Recovers clubFails := by
  refine ⟨clubsFail_clubFails, ?_⟩
  rintro ⟨events, hevents, -⟩
  have hnone : lastEvent (mergedEvents ["Chess"]) clubFails.reverse = none := rfl
  rw [hnone] at hevents
  cases hevents

end CalendarStreams

end TheHive
