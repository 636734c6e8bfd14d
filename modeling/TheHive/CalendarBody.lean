import TheHive.CalendarDelete
import TheHive.CalendarStreams

/-!
# What My Calendar shows

The body of `CalendarPage`: a `FutureBuilder` for the clubs, in it a `StreamBuilder` for the
events, a sort that may raise, and the list.

* `CalendarFeed` — what has come in so far; `CalendarPage.body` — what is built from it.
* `lastEvent_mergedEvents_eq` — the last event of the stream after any deliveries, failures of the
  clubs and of the entries included.
* `BodyLaw`, `calendarBody_law` — **which of the five bodies is shown, after any sequence of
  snapshots and failures**.
* `body_club_error` — the failure of a club is never shown.
-/

set_option autoImplicit false

namespace TheHive

open DocStore ComparisonSort RxStream RxStream.EventStream CalendarStreams

/-- What a builder has been given. -/
inductive CalendarFeed where
  /-- `getUserJoinedClubs` has not completed. -/
  | fetching
  | failed
  /-- The clubs, and the deliveries of the streams since; the latest one comes first. -/
  | joined (joinedClubs : List String) (h : List (CalendarDelivery joinedClubs))

inductive CalendarBody where
  | progressIndicator
  | text (s : String)
  /-- The tiles of a list; an item whose builder raises is `none`. -/
  | listView (tiles : List (Option EventTile))

namespace CalendarPage

/-- The sort of the events, then a tile for each; `none` when the sort raises. -/
def listView (A : Algorithm) (intl : Intl) (events : Shot) : Option CalendarBody :=
  (A.sort (fun a b => compareEvents a.2 b.2) events).map fun sorted =>
    .listView (sorted.map fun event => tile intl event.2)

/-- The builder of the `StreamBuilder`; without an event the connection is still waiting. -/
def eventsBody (A : Algorithm) (intl : Intl) : Option (Event Shot) → Option CalendarBody
  | none => some .progressIndicator
  | some .error => some (.text "Error fetching events!")
  | some (.data events) =>
    if events.isEmpty then some (.text "No upcoming events.") else listView A intl events

/-- The body of the page; `none` when the builder raises. -/
def body (A : Algorithm) (intl : Intl) : CalendarFeed → Option CalendarBody
  | .fetching => some .progressIndicator
  | .failed => some (.text "Error fetching clubs!")
  | .joined joinedClubs h =>
    if joinedClubs.isEmpty then some (.text "No clubs joined yet...")
    else eventsBody A intl (lastEvent (mergedEvents joinedClubs) h)

end CalendarPage

namespace CalendarStreams

variable {joinedClubs : List String} {h : List (CalendarDelivery joinedClubs)}
  {d : CalendarDelivery joinedClubs}

/-! ## The last event of the stream -/

/-- The entries have failed. -/
def isEntriesError : CalendarDelivery joinedClubs → Bool
  | .volunteer .error => true
  | _ => false

/-- A club has failed. -/
def isClubError : CalendarDelivery joinedClubs → Bool
  | .club _ .error => true
  | _ => false

/-- The last delivery, failures of clubs aside, is a failure of the entries. -/
def lastIsError (h : List (CalendarDelivery joinedClubs)) : Bool :=
  ((h.find? fun d => !isClubError d).map isEntriesError).getD false

theorem lastIsError_of_clubError (hd : isClubError d) : lastIsError (d :: h) = lastIsError h := by
  rw [lastIsError, List.find?_cons_of_neg (by simp [hd])]
  rfl

theorem lastIsError_of_not_clubError (hd : isClubError d = false) :
    lastIsError (d :: h) = isEntriesError d := by
  rw [lastIsError, List.find?_cons_of_pos (by simp [hd])]
  rfl

/-- What failed last has failed. -/
theorem any_of_lastIsError (hlast : lastIsError h) : h.any isEntriesError := by
  unfold lastIsError at hlast
  cases hfind : h.find? fun d => !isClubError d with
  | none => rw [hfind] at hlast; cases hlast
  | some d =>
    rw [hfind] at hlast
    exact List.any_eq_true.2 ⟨d, List.mem_of_find?_eq_some hfind, hlast⟩

/-- A failure of the entries passes through the combination. -/
theorem mergedEvents_entriesError : mergedEvents joinedClubs (.volunteer .error :: h) = some .error := by
  have hclubs := data_getClubEvents (.volunteer .error) h
  have hentries : (getVolunteerEvents joinedClubs) (.volunteer .error :: h) = some .error := rfl
  have hdata : (getVolunteerEvents joinedClubs).data (.volunteer .error :: h) = none := rfl
  simp [mergedEvents, combineLatest2, hclubs, hentries, hdata]

/-- A failure changes no snapshot. -/
theorem latestEvents_of_not_snapshot (hd : ¬ IsSnapshot d) : latestEvents (d :: h) = latestEvents h := by
  cases d with
  | club i e =>
    cases e with
    | data docs => exact absurd trivial hd
    | error => rfl
  | volunteer e =>
    cases e with
    | data docs => exact absurd trivial hd
    | error => rfl

/-- **The last event of the stream, after any deliveries**: the last snapshots once all are there,
unless the entries failed after that; before that a failure of the entries, if there was one. -/
theorem lastEvent_mergedEvents_eq (h : List (CalendarDelivery joinedClubs)) :
    lastEvent (mergedEvents joinedClubs) h =
      if lastIsError h then some .error
      else ((latestEvents h).map .data).or (if h.any isEntriesError then some .error else none) := by
  induction h with
  | nil =>
    have hnone : latestEvents ([] : List (CalendarDelivery joinedClubs)) = none := by
      rw [← Option.not_isSome_iff_eq_none, latestEvents_isSome_iff]
      rintro ⟨-, docs, hmem⟩
      cases hmem
    rw [lastEvent, mergedEvents_nil, hnone]
    rfl
  | cons d h ih =>
    -- a snapshot emits what there is
    have hsnapshot : IsSnapshot d → isClubError d = false → isEntriesError d = false →
        lastEvent (mergedEvents joinedClubs) (d :: h) =
          ((latestEvents (d :: h)).map .data).or
            (if (d :: h).any isEntriesError then some .error else none) := by
      intro hd _ hentries
      rw [lastEvent, mergedEvents_data hd, List.any_cons, hentries, Bool.false_or]
      cases hnow : latestEvents (d :: h) with
      | some events => rfl
      | none =>
        have hbefore : latestEvents h = none := by
          rw [← Option.not_isSome_iff_eq_none, latestEvents_isSome_iff] at hnow ⊢
          exact fun hall => hnow (hall.cons d)
        rw [ih, hbefore]
        by_cases hlast : lastIsError h
        · simp [hlast, any_of_lastIsError hlast]
        · simp [hlast]
    cases d with
    | club i e =>
      cases e with
      | data docs =>
        rw [lastIsError_of_not_clubError rfl, hsnapshot trivial rfl rfl]
        rfl
      | error =>
        rw [lastEvent, mergedEvents_error, Option.none_or, ih, lastIsError_of_clubError rfl,
          latestEvents_of_not_snapshot (d := .club i .error) id]
        rfl
    | volunteer e =>
      cases e with
      | data docs =>
        rw [lastIsError_of_not_clubError rfl, hsnapshot trivial rfl rfl]
        rfl
      | error =>
        rw [lastEvent, mergedEvents_entriesError, lastIsError_of_not_clubError rfl]
        rfl

end CalendarStreams

/-! ## The body -/

/-- The documents of a delivery are events the app wrote. -/
def OfApp {joinedClubs : List String} : CalendarDelivery joinedClubs → Prop
  | .club _ (.data docs) | .volunteer (.data docs) => ∀ x ∈ docs, ∃ e : AppEvent, x.2 = e.doc
  | _ => True

/-- Which body is shown after the deliveries `h`. -/
structure BodyLaw (A : Algorithm) (intl : Intl) {joinedClubs : List String}
    (h : List (CalendarDelivery joinedClubs)) : Prop where
  progress : CalendarPage.body A intl (.joined joinedClubs h) = some .progressIndicator ↔
    ¬ AllDelivered h ∧ .volunteer .error ∉ h
  error : CalendarPage.body A intl (.joined joinedClubs h) = some (.text "Error fetching events!") ↔
    .volunteer .error ∈ h ∧ (¬ AllDelivered h ∨ lastIsError h)
  empty : CalendarPage.body A intl (.joined joinedClubs h) = some (.text "No upcoming events.") ↔
    lastIsError h = false ∧ latestEvents h = some []
  raises : CalendarPage.body A intl (.joined joinedClubs h) = none ↔
    lastIsError h = false ∧ ∃ events, latestEvents h = some events ∧
      ¬ (events.map fun x => dateOf x.2).Nodup
  list : ∀ tiles, CalendarPage.body A intl (.joined joinedClubs h) = some (.listView tiles) ↔
    lastIsError h = false ∧ ∃ events, latestEvents h = some events ∧ events ≠ [] ∧
      (events.map fun x => dateOf x.2).Nodup ∧
        tiles = (events.insertionSort fun a b => dateOf a.2 ≤ dateOf b.2).map fun x =>
          CalendarPage.tile intl x.2

variable {A : Algorithm} {intl : Intl} {joinedClubs : List String}
  {h : List (CalendarDelivery joinedClubs)}

theorem mem_entriesError_iff : .volunteer .error ∈ h ↔ h.any isEntriesError := by
  rw [List.any_eq_true]
  constructor
  · exact fun hmem => ⟨_, hmem, rfl⟩
  · rintro ⟨d, hd, herror⟩
    unfold isEntriesError at herror
    split at herror
    · exact hd
    · cases herror

/-- The documents of the last snapshots are events of the app. -/
theorem ofApp_latestEvents (happ : ∀ d ∈ h, OfApp d) {events : Shot} (hevents : latestEvents h = some events) :
    ∀ x ∈ events, ∃ e : AppEvent, x.2 = e.doc := by
  have hclub : ∀ i docs, clubShot h i = some docs → ∀ x ∈ docs, ∃ e : AppEvent, x.2 = e.doc := by
    intro i docs hdocs
    obtain ⟨d, hd, hshot⟩ := List.exists_of_findSome?_eq_some hdocs
    split at hshot
    · obtain ⟨-, hshot⟩ := Option.ite_none_right_eq_some.1 hshot
      cases hshot
      exact happ _ hd
    · cases hshot
  have hentries : ∀ docs, volunteerShot h = some docs → ∀ x ∈ docs, ∃ e : AppEvent, x.2 = e.doc := by
    intro docs hdocs
    obtain ⟨d, hd, hshot⟩ := List.exists_of_findSome?_eq_some hdocs
    split at hshot
    · cases hshot
      exact happ _ hd
    · cases hshot
  rw [latestEvents_eq hevents]
  intro x hx
  rcases List.mem_append.1 hx with hx | hx
  · obtain ⟨i, -, hx⟩ := List.mem_flatMap.1 hx
    cases hshot : clubShot h i with
    | none => rw [hshot] at hx; cases hx
    | some docs => exact hclub i docs hshot x (by simpa [hshot] using hx)
  · cases hshot : volunteerShot h with
    | none => rw [hshot] at hx; cases hx
    | some docs => exact hentries docs hshot x (by simpa [hshot] using hx)

/-- **The list**: sorted by date when no two dates are equal; else the sort raises. -/
theorem listView_cases {events : Shot} (happ : ∀ x ∈ events, ∃ e : AppEvent, x.2 = e.doc) :
    (events.map fun x => dateOf x.2).Nodup ∧
        CalendarPage.listView A intl events =
          some (.listView ((events.insertionSort fun a b => dateOf a.2 ≤ dateOf b.2).map fun x =>
            CalendarPage.tile intl x.2)) ∨
      ¬ (events.map fun x => dateOf x.2).Nodup ∧ CalendarPage.listView A intl events = none := by
  have hraises := raisesOnTies_compareEvents (fun x : Path × Doc => x.2) happ
  by_cases hnodup : (events.map fun x => dateOf x.2).Nodup
  · obtain ⟨sorted, hsort, hperm, hsorted⟩ := sort_of_nodup A hraises hnodup
    refine .inl ⟨hnodup, ?_⟩
    have htotal : Std.Total fun a b : Path × Doc => dateOf a.2 ≤ dateOf b.2 :=
      ⟨fun a b => le_total (dateOf a.2) (dateOf b.2)⟩
    have htrans : IsTrans (Path × Doc) fun a b => dateOf a.2 ≤ dateOf b.2 :=
      ⟨fun a b c => le_trans⟩
    have heq : sorted = events.insertionSort fun a b => dateOf a.2 ≤ dateOf b.2 := by
      refine (hperm.trans (List.perm_insertionSort _ events).symm).eq_of_pairwise ?_ hsorted
        (List.pairwise_insertionSort _ events)
      intro a b ha hb hab hba
      have hb := (List.mem_insertionSort _).1 hb
      exact List.inj_on_of_nodup_map hnodup (hperm.mem_iff.1 ha) hb (le_antisymm hab hba)
    rw [CalendarPage.listView, hsort, heq]
    rfl
  · refine .inr ⟨hnodup, ?_⟩
    rw [CalendarPage.listView, Option.map_eq_none_iff, Option.eq_none_iff_forall_ne_some]
    exact fun sorted hsort => hnodup (nodup_of_sort A hraises hsort)

/-- What the `StreamBuilder` is given once a club has been joined. -/
theorem body_joined (hne : joinedClubs ≠ []) :
    CalendarPage.body A intl (.joined joinedClubs h) =
      CalendarPage.eventsBody A intl (if lastIsError h then some .error
        else ((latestEvents h).map .data).or (if h.any isEntriesError then some .error else none)) := by
  rw [CalendarPage.body, if_neg (by simpa using hne), lastEvent_mergedEvents_eq]

/-- The failure of a club is never shown. -/
theorem body_club_error (i : Fin joinedClubs.length) :
    CalendarPage.body A intl (.joined joinedClubs (.club i .error :: h)) =
      CalendarPage.body A intl (.joined joinedClubs h) := by
  have hne : joinedClubs ≠ [] := by
    rintro rfl
    exact i.elim0
  rw [body_joined hne, body_joined hne, lastIsError_of_clubError rfl,
    latestEvents_of_not_snapshot (d := .club i .error) id]
  rfl

/-- **Which body is shown**, after any sequence of snapshots and failures. -/
theorem calendarBody_law (A : Algorithm) (intl : Intl) (hne : joinedClubs ≠ [])
    (happ : ∀ d ∈ h, OfApp d) : BodyLaw A intl h := by
  have hbody : CalendarPage.body A intl (.joined joinedClubs h) = _ := body_joined hne
  have hall := latestEvents_isSome_iff (h := h)
  cases hlast : lastIsError h with
  | true =>
    -- the entries failed last
    have herror := any_of_lastIsError hlast
    rw [hlast, if_pos rfl] at hbody
    refine ⟨?_, ?_, ?_, ?_, fun tiles => ?_⟩ <;> rw [hbody] <;>
      simp [CalendarPage.eventsBody, mem_entriesError_iff, herror, hlast]
  | false =>
    rw [hlast, if_neg (by simp)] at hbody
    cases hlatest : latestEvents h with
    | none =>
      rw [hlatest] at hbody hall
      have hnot : ¬ AllDelivered h := fun hdelivered => by cases hall.2 hdelivered
      cases herror : h.any isEntriesError with
      | true =>
        rw [herror] at hbody
        refine ⟨?_, ?_, ?_, ?_, fun tiles => ?_⟩ <;> rw [hbody] <;>
          simp [CalendarPage.eventsBody, mem_entriesError_iff, herror, hlatest, hnot]
      | false =>
        rw [herror] at hbody
        refine ⟨?_, ?_, ?_, ?_, fun tiles => ?_⟩ <;> rw [hbody] <;>
          simp [CalendarPage.eventsBody, mem_entriesError_iff, herror, hlatest, hnot]
    | some events =>
      rw [hlatest] at hbody hall
      have hdelivered : AllDelivered h := hall.1 rfl
      have hshown : CalendarPage.body A intl (.joined joinedClubs h) =
          if events.isEmpty then some (.text "No upcoming events.")
          else CalendarPage.listView A intl events := hbody
      by_cases hnil : events = []
      · subst hnil
        refine ⟨?_, ?_, ?_, ?_, fun tiles => ?_⟩ <;> rw [hshown] <;>
          simp [hdelivered, hlast, hlatest]
      · have hlist := @listView_cases A intl _ (ofApp_latestEvents happ hlatest)
        rw [if_neg (by simpa using hnil)] at hshown
        rcases hlist with ⟨hnodup, hlist⟩ | ⟨hties, hlist⟩
        · refine ⟨?_, ?_, ?_, ?_, fun tiles => ?_⟩ <;> rw [hshown, hlist] <;>
            simp [hdelivered, hlast, hlatest, hnil, hnodup, eq_comm]
        · refine ⟨?_, ?_, ?_, ?_, fun tiles => ?_⟩ <;> rw [hshown, hlist] <;>
            simp [hdelivered, hlast, hlatest, hnil, hties]

theorem calendarBody_law_bothDeliver : BodyLaw insertionSort marchThird bothDeliver.reverse :=
  calendarBody_law insertionSort marchThird (by simp) (by
    intro d hd
    rcases List.mem_cons.1 (List.mem_reverse.1 hd) with rfl | hd
    · intro x hx
      cases hx
    · obtain rfl := List.mem_singleton.1 hd
      intro x hx
      obtain rfl := List.mem_singleton.1 hx
      exact ⟨.volunteer foodDrive, rfl⟩)

end TheHive
