import TheHive.AppWrites
import TheHive.OfflineWrites

/-!
# A device and the server

A device shows what its local store makes of the app's writes that no answer has come for, on top of
what it knows of the server.  Writes, answers and news from the server come in any order.

* `Device`, `Device.step` — the local store, and the writes of the app that wait for an answer.
* `ClientTimedAt` — no field of the document is set to the time of the server.
* `Follows` — the batches of the store are these writes; kept by every step.
* `shows_run` — **every such document, and every query of it, is what `commit` makes of the waiting
  writes**, as long as no overlay of the document is left behind.
* `read_acknowledge` — an acknowledgement changes nothing on the screen.
* `content_run` — **on typed contents**, the operations of the handlers take effect one by one.
-/

set_option autoImplicit false

namespace TheHive

open DocStore Firestore MutableDocument TypedStore List

/-! ## The device -/

structure Device where
  store : LocalStore DocStore.Path Value
  /-- The writes of the app that wait for an answer, the oldest first. -/
  unanswered : List Write

inductive DeviceAction where
  | write (localWriteTime : Firestore.Timestamp) (w : Write)
  | acknowledge (batchId : BatchId) (mutationResults : List (MutationResult Value))
  | reject (batchId : BatchId)
  | remoteEvent (documentUpdates : List (DocStore.Path × RemoteDocument Value))

/-- What reaches the local store. -/
def DeviceAction.toAction : DeviceAction → Action DocStore.Path Value
  | write localWriteTime w => .writeMutations localWriteTime [(w.path, toUserWrite w)]
  | acknowledge batchId mutationResults => .acknowledgeBatch batchId mutationResults
  | reject batchId => .rejectBatch batchId
  | remoteEvent documentUpdates => .applyRemoteEvent documentUpdates

/-- What is written to the document does not wait for the time of the server. -/
def DeviceAction.ClientTimedAt (p : DocStore.Path) : DeviceAction → Prop
  | write _ w => w.path = p → ClientTimed w
  | acknowledge _ _ | reject _ | remoteEvent _ => True

def DeviceAction.unanswered (ws : List Write) : DeviceAction → List Write
  | write _ w => ws ++ [w]
  | acknowledge _ _ | reject _ => ws.tail
  | remoteEvent _ => ws

namespace Device

def start : Device := ⟨.empty, []⟩

def step (t : Device) (a : DeviceAction) : Option Device :=
  (t.store.step a.toAction).map fun store => ⟨store, a.unanswered t.unanswered⟩

/-- What the app gets for a document. -/
def read (t : Device) (p : DocStore.Path) : Option Doc := toDoc (t.store.getDocument p)

/-- What the device has last heard of it. -/
def known (t : Device) (p : DocStore.Path) : Option Doc := toDoc (t.store.remoteDocument p)

/-- A query of a collection for the documents that `f` accepts. -/
def query (inCollection : DocStore.Path → Bool) (f : Doc → Bool) : Query DocStore.Path Value :=
  ⟨inCollection, fun _ data => f (documentData data)⟩

/-- What a query finds of a document. -/
def queried (inCollection : DocStore.Path → Bool) (f : Doc → Bool) (t : Device) (p : DocStore.Path) :
    Option Doc :=
  (t.store.getDocumentsMatchingCollectionQuery (query inCollection f) p).bind toDoc

/-! ## Waiting writes -/

/-- The document is right in the local store, whose batches are the waiting writes. -/
structure Follows (p : DocStore.Path) (t : Device) : Prop where
  inv : t.store.Inv p
  queue : t.store.mutationQueue.map MutationBatch.mutations =
    t.unanswered.map fun w => [(w.path, (toUserWrite w).toMutation)]
  clientTimed : ∀ w ∈ t.unanswered, w.path = p → ClientTimed w
  dataIfFound : DataIfFound (t.store.remoteDocument p)

variable {p : DocStore.Path} {t t' : Device} {a : DeviceAction}

theorem follows_start (p : DocStore.Path) : Follows p start :=
  ⟨LocalStore.inv_empty p, rfl, fun _ h => (by cases h), fun _ => rfl⟩

theorem step_eq_some_iff : step t a = some t' ↔
    t.store.step a.toAction = some t'.store ∧ t'.unanswered = a.unanswered t.unanswered := by
  rw [step, Option.map_eq_some_iff]
  constructor
  · rintro ⟨store, hstore, rfl⟩
    exact ⟨hstore, rfl⟩
  · rintro ⟨hstore, hunanswered⟩
    exact ⟨t'.store, hstore, by rw [← hunanswered]⟩

theorem plainAt_toAction (ha : a.ClientTimedAt p) : a.toAction.PlainAt p := by
  cases a with
  | write localWriteTime w =>
    intro w' hw'
    obtain ⟨hpath, rfl⟩ := Prod.mk.inj (List.mem_singleton.1 hw')
    exact plain_toUserWrite (ha hpath.symm)
  | acknowledge | reject | remoteEvent => trivial

/-- What waits was written, or has waited before. -/
theorem mem_unanswered_step (hstep : t.step a = some t') {w : Write} (hw : w ∈ t'.unanswered) :
    w ∈ t.unanswered ∨ ∃ localWriteTime, a = .write localWriteTime w := by
  rw [(step_eq_some_iff.1 hstep).2] at hw
  cases a with
  | write localWriteTime w' =>
    rcases List.mem_append.1 hw with hw | hw
    · exact .inl hw
    · exact .inr ⟨localWriteTime, by rw [List.mem_singleton.1 hw]⟩
  | acknowledge | reject => exact .inl (List.mem_of_mem_tail hw)
  | remoteEvent => exact .inl hw

/-- **Every step keeps a document right**, when its overlay is not left behind. -/
theorem Follows.step (h : Follows p t) (ha : a.ClientTimedAt p)
    (hkeeps : t.store.KeepsUp p a.toAction) (hstep : t.step a = some t') : Follows p t' := by
  obtain ⟨hstore, hunanswered⟩ := step_eq_some_iff.1 hstep
  refine ⟨h.inv.step (plainAt_toAction ha) hstore hkeeps, ?_, fun w hw hpath => ?_,
    LocalStore.remoteDocument_step (fun _ => rfl) ?_ dataIfFound_applyToRemoteDocument h.dataIfFound
      hstore⟩
  · rw [LocalStore.mutationQueue_step hstore, hunanswered]
    cases a with
    | write localWriteTime w =>
      show (t.store.mutationQueue ++ [_]).map _ = (t.unanswered ++ [w]).map _
      rw [List.map_append, List.map_append, h.queue]
      rfl
    | acknowledge | reject =>
      show t.store.mutationQueue.tail.map _ = t.unanswered.tail.map _
      rw [List.map_tail, List.map_tail, h.queue]
    | remoteEvent documentUpdates => exact h.queue
  · rcases mem_unanswered_step hstep hw with hw | ⟨localWriteTime, rfl⟩
    · exact h.clientTimed w hw hpath
    · exact ha hpath
  · rintro (_ | _) hfound
    · cases hfound
    · rfl

/-- **Replaying batches of single writes is committing the writes.** -/
theorem toDoc_applyAllToLocalView {batches : List (MutationBatch DocStore.Path Value)}
    {ws : List Write} {doc : MutableDocument Value} {db : Db}
    (hbatches : batches.map MutationBatch.mutations =
      ws.map fun w => [(w.path, (toUserWrite w).toMutation)])
    (hws : ∀ w ∈ ws, w.path = p → ClientTimed w) (hdb : db.lookup p = toDoc doc) (hdoc : DataIfFound doc) (mask : Option FieldMask) :
    toDoc (applyAllToLocalView (LocalStore.pendingIn batches p) doc mask).1 =
      (commit ws db).lookup p := by
  induction batches generalizing ws doc db mask with
  | nil =>
    obtain rfl : ws = [] := List.map_eq_nil_iff.1 hbatches.symm
    exact hdb.symm
  | cons batch batches ih =>
    cases ws with
    | nil => cases hbatches
    | cons w ws =>
      obtain ⟨hmutations, hrest⟩ := List.cons.inj hbatches
      obtain ⟨hw₀, hws⟩ := List.forall_mem_cons.1 hws
      rw [LocalStore.pendingIn, List.flatMap_cons, ← LocalStore.pendingIn, applyAllToLocalView_append,
        commit_cons]
      have hpending : batch.pending p =
          if w.path = p then [((toUserWrite w).toMutation, batch.localWriteTime)] else [] := by
        rw [MutationBatch.pending, hmutations]
        by_cases hw : w.path = p <;> simp [hw]
      rw [hpending]
      by_cases hw : w.path = p
      · subst hw
        rw [if_pos rfl]
        obtain ⟨hsettle, hdoc'⟩ :=
          toDoc_applyToLocalView (hw₀ rfl) hdb hdoc mask batch.localWriteTime
        exact ih hrest hws hsettle.symm hdoc' _
      · rw [if_neg hw]
        exact ih hrest hws ((Write.settle_frame (Ne.symm hw)).trans hdb) hdoc mask

/-- The device shows what the waiting writes make of what it knows. -/
structure Shows (p : DocStore.Path) (t : Device) : Prop where
  read : ∀ db : Db, db.lookup p = t.known p → t.read p = (commit t.unanswered db).lookup p
  queried : ∀ db : Db, db.lookup p = t.known p → ∀ inCollection f, queried inCollection f t p =
    if inCollection p then ((commit t.unanswered db).lookup p).filter f else none

theorem Follows.read_eq (h : Follows p t) {db : Db} (hdb : db.lookup p = t.known p) :
    t.read p = (commit t.unanswered db).lookup p := by
  rw [read, h.inv.showsPending.document, LocalStore.getDocumentFromBatches_eq]
  exact toDoc_applyAllToLocalView h.queue h.clientTimed hdb h.dataIfFound _

/-- A query finds the document that is read, if it is in the collection and accepted. -/
theorem Follows.queried_eq (h : Follows p t) (inCollection : DocStore.Path → Bool) (f : Doc → Bool) :
    queried inCollection f t p = if inCollection p then (t.read p).filter f else none := by
  rw [queried, h.inv.showsPending.query, ← h.inv.showsPending.document, read]
  cases hfound : (t.store.getDocument p).isFoundDocument with
  | false =>
    rw [Option.filter_some, Query.matchesDocument, hfound, toDoc_of_not_found hfound]
    cases inCollection p <;> rfl
  | true =>
    rw [Option.filter_some, Query.matchesDocument, hfound, toDoc_of_found hfound, Option.filter_some]
    cases hin : inCollection p with
    | false => simp [query, hin]
    | true =>
      cases hf : f (documentData (t.store.getDocument p).data) <;>
        simp [query, hin, hf, toDoc_of_found hfound]

theorem Follows.shows (h : Follows p t) : Shows p t := by
  refine ⟨fun db hdb => h.read_eq hdb, fun db hdb inCollection f => ?_⟩
  rw [h.queried_eq, h.read_eq hdb]

/-! ## Runs -/

theorem follows_run (p : DocStore.Path) (actions : List DeviceAction)
    (hclient : ∀ a ∈ actions, a.ClientTimedAt p)
    (hkeeps : ∀ x ∈ Transition.taken step start actions, x.1.store.KeepsUp p x.2.toAction) :
    ∀ t ∈ Transition.visited step start actions, Follows p t :=
  Transition.visited_invariant_of_taken
    (C := fun t a => a.ClientTimedAt p ∧ t.store.KeepsUp p a.toAction)
    (follows_start p) (fun _ _ _ h hC hstep => h.step hC.1 hC.2 hstep) actions
    fun x hx => ⟨hclient x.2 (Transition.mem_of_mem_taken actions x hx), hkeeps x hx⟩

/-- **In every run a document is shown, by itself and in queries, as the waiting writes make it of
what the device knows**, as long as no step leaves its overlay behind and no write sets a field of
it to the time of the server. -/
theorem shows_run (p : DocStore.Path) (actions : List DeviceAction)
    (hclient : ∀ a ∈ actions, a.ClientTimedAt p)
    (hkeeps : ∀ x ∈ Transition.taken step start actions, x.1.store.KeepsUp p x.2.toAction) :
    ∀ t ∈ Transition.visited step start actions, Shows p t :=
  fun t ht => (follows_run p actions hclient hkeeps t ht).shows

theorem updates_iff : Action.Updates p a.toAction ↔ ∃ time d, a = .write time (.update p d) := by
  constructor
  · intro h
    cases a with
    | write time w =>
      obtain ⟨data, fieldMask, fieldTransforms, hmem⟩ := h
      obtain ⟨hpath, hw⟩ := Prod.mk.inj (List.mem_singleton.1 hmem)
      cases w with
      | update q d =>
        obtain rfl : p = q := hpath
        exact ⟨time, d, rfl⟩
      | set | setMerge | delete => cases hw
    | acknowledge | reject | remoteEvent => exact h.elim
  · rintro ⟨time, d, rfl⟩
    exact ⟨_, _, _, List.mem_singleton.2 rfl⟩

theorem unconditional_step (h : t.store.Indexed ∧ t.store.Unconditional p)
    (ha : ¬ Action.Updates p a.toAction) (hstep : t.step a = some t') :
    t'.store.Indexed ∧ t'.store.Unconditional p := by
  obtain ⟨hstore, -⟩ := step_eq_some_iff.1 hstep
  exact ⟨h.1.step hstore, h.2.step hstore ha⟩

/-- A document that is not updated never leaves its overlay behind. -/
theorem keepsUp_of_not_updated (actions : List DeviceAction)
    (h : ∀ a ∈ actions, ∀ time d, a ≠ .write time (.update p d)) :
    ∀ x ∈ Transition.taken step start actions, x.1.store.KeepsUp p x.2.toAction := by
  have hnone : ∀ x ∈ Transition.taken step start actions, ¬ Action.Updates p x.2.toAction := by
    intro x hx hupdates
    obtain ⟨time, d, heq⟩ := updates_iff.1 hupdates
    exact h x.2 (Transition.mem_of_mem_taken actions x hx) time d heq
  intro x hx
  obtain ⟨hindexed, huncond⟩ := Transition.visited_invariant_of_taken
    (I := fun t : Device => t.store.Indexed ∧ t.store.Unconditional p)
    (C := fun _ a => ¬ Action.Updates p a.toAction)
    ⟨LocalStore.indexed_empty, fun _ hm => by cases hm⟩
    (fun _ _ _ ht ha hstep => unconditional_step ht ha hstep) actions hnone x.1
    (Transition.mem_visited.2 (.inl ⟨x.2, hx⟩))
  exact huncond.keepsUp hindexed x.2.toAction

/-! ## Answers -/

/-- A store with one document at most. -/
def only (p : DocStore.Path) (o : Option Doc) : Db :=
  match o with
  | some d => (∅ : Db).insert p d
  | none => ∅

theorem lookup_only (p : DocStore.Path) (o : Option Doc) : (only p o).lookup p = o := by
  cases o with
  | some d => exact AList.lookup_insert _
  | none => rfl

theorem lookup_only_ne {p q : DocStore.Path} (h : q ≠ p) (o : Option Doc) :
    (only p o).lookup q = none := by
  cases o with
  | some d => exact AList.lookup_insert_ne h
  | none => rfl

/-! A club, and the answer to it. -/

def chessPath : DocStore.Path := ["club", "Chess"]

def chessDoc : Doc := CreateAClub.clubDoc "Chess" "Openings" "ann@school.org"

def writeChess : DeviceAction := .write 0 (.set chessPath chessDoc)

def ackChess : DeviceAction := .acknowledge 1 [⟨5, []⟩]

def answered : Device := Transition.exec step start [writeChess, ackChess]

theorem keepsUp_chess : ∀ x ∈ Transition.taken step start [writeChess, ackChess],
    x.1.store.KeepsUp chessPath x.2.toAction := by
  refine keepsUp_of_not_updated _ fun a ha time d heq => ?_
  rcases List.mem_cons.1 ha with rfl | ha
  · cases heq
  · obtain rfl := List.mem_singleton.1 ha
    cases heq

theorem clientTimedAt_chess : ∀ a ∈ [writeChess, ackChess], a.ClientTimedAt chessPath := by
  intro a ha
  rcases List.mem_cons.1 ha with rfl | ha
  · exact fun _ => rfl
  · rw [List.mem_singleton.1 ha]
    trivial

theorem shows_run_chess : Shows chessPath answered :=
  shows_run chessPath [writeChess, ackChess] clientTimedAt_chess keepsUp_chess answered
    (Transition.mem_visited.2 (.inr rfl))

/-- What the pages show of a reference, and what the device knows of it. -/
def content (t : Device) (r : Ref) : Option (Content r) := (t.read r.path).bind (hiveSchema.read r)

def knownContent (t : Device) (r : Ref) : Option (Content r) :=
  (t.known r.path).bind (hiveSchema.read r)

/-- What is known can be read, but for litter. -/
def Readable (r : Ref) (t : Device) : Prop :=
  ∀ d, t.known r.path = some d →
    (hiveSchema.read r d).isSome ∨ hiveSchema.read r d = none ∧ hiveSchema.litter r d

theorem sound_only {r : Ref} (h : Readable r t) : hiveSchema.Sound (only r.path (t.known r.path)) := by
  intro q d hd
  by_cases hq : q = r
  · subst hq
    exact h d ((lookup_only _ _).symm.trans hd)
  · have hne : q.path ≠ r.path := fun heq => hq (Ref.path_injective heq)
    cases (lookup_only_ne hne _).symm.trans hd

/-- **The operations of the waiting writes act on the content that is known.** -/
theorem Follows.content_eq {r : Ref} (h : Follows r.path t) (hreadable : Readable r t)
    {ops : List HiveOp} (hops : Forall₂ (Denotes hiveSchema) t.unanswered ops) {m : Hive}
    (hm : m r = t.knownContent r) : t.content r = ops.foldl (fun m op => op.run m) m r := by
  have hdb := lookup_only r.path (t.known r.path)
  have hview : hiveSchema.view (only r.path (t.known r.path)) r = m r := by
    rw [hm, Schema.view, show hiveSchema.path r = r.path from rfl, hdb]
    rfl
  calc t.content r
      = hiveSchema.view (commit t.unanswered (only r.path (t.known r.path))) r := by
        rw [content, h.read_eq hdb]
        rfl
    _ = ops.foldl (fun m op => op.run m) (hiveSchema.view (only r.path (t.known r.path))) r := by
        rw [view_commit hops (sound_only hreadable)]
    _ = ops.foldl (fun m op => op.run m) m r := foldl_run_congr hview ops

/-! ### The writes of the app -/

/-- A write of a handler denotes one of its operations. -/
theorem exists_hiveOp {intl : Intl} {q : Request} {w : Write} (hw : w ∈ appWrites intl q) :
    ∃ op ∈ hiveOps intl q, Denotes hiveSchema w op := by
  obtain ⟨i, hi, rfl⟩ := List.getElem_of_mem hw
  have hlength := (denotes_hiveOps intl q).length_eq
  have hi' : i < (hiveOps intl q).length := by omega
  exact ⟨_, List.getElem_mem hi', (List.forall₂_iff_get.1 (denotes_hiveOps intl q)).2 i hi hi'⟩

/-- **Only a choice of school waits for the time of the server.** -/
theorem clientTimed_of_appWrite {user : Option User} {r : Ref} (hr : ∀ u, r ≠ .profile u) {w : Write}
    (h : AppWrite user w) (hpath : w.path = r.path) : ClientTimed w := by
  cases h with
  | shared _ _ htime | own _ _ _ htime | nobody _ _ _ htime => exact htime
  | count => rfl
  | @choice u =>
    have hpath : (Ref.profile u).path = r.path := hpath
    exact absurd (Ref.path_injective hpath).symm (hr u)
  | delete => trivial

/-- The app's writes, and what they are for. -/
def DenotesApp (intl : Intl) (w : Write) (op : HiveOp) : Prop :=
  ∃ q, w ∈ appWrites intl q ∧ op ∈ hiveOps intl q ∧ Denotes hiveSchema w op

/-- The writes of the run are writes of the app. -/
def OfApp (intl : Intl) (a : DeviceAction) : Prop :=
  ∀ time w, a = .write time w → ∃ q, w ∈ appWrites intl q

theorem clientTimedAt_of_ofApp {intl : Intl} {r : Ref} (hr : ∀ u, r ≠ .profile u)
    (ha : OfApp intl a) : a.ClientTimedAt r.path := by
  cases a with
  | write time w =>
    intro hpath
    obtain ⟨q, hw⟩ := ha time w rfl
    exact clientTimed_of_appWrite hr (appWrite_appWrites hw) hpath
  | acknowledge | reject | remoteEvent => trivial

theorem step_exists_ops {intl : Intl} (h : ∃ ops, Forall₂ (DenotesApp intl) t.unanswered ops)
    (ha : OfApp intl a) (hstep : t.step a = some t') :
    ∃ ops, Forall₂ (DenotesApp intl) t'.unanswered ops := by
  obtain ⟨ops, hops⟩ := h
  rw [(step_eq_some_iff.1 hstep).2]
  cases a with
  | write time w =>
    obtain ⟨q, hw⟩ := ha time w rfl
    obtain ⟨op, hop, hdenotes⟩ := exists_hiveOp hw
    exact ⟨ops ++ [op], List.rel_append hops (.cons ⟨q, hw, hop, hdenotes⟩ .nil)⟩
  | acknowledge | reject =>
    refine ⟨ops.tail, ?_⟩
    show Forall₂ _ t.unanswered.tail ops.tail
    generalize t.unanswered = ws at hops ⊢
    cases hops with
    | nil => exact .nil
    | cons _ hrest => exact hrest
  | remoteEvent => exact ⟨ops, hops⟩

/-- The waiting writes are writes of the app. -/
theorem exists_ops {intl : Intl} {actions : List DeviceAction} (happ : ∀ a ∈ actions, OfApp intl a) :
    ∀ t ∈ Transition.visited step start actions,
      ∃ ops, Forall₂ (DenotesApp intl) t.unanswered ops :=
  Transition.visited_invariant_of_taken (C := fun _ a => OfApp intl a) ⟨[], .nil⟩
    (fun _ _ _ h ha hstep => step_exists_ops h ha hstep) actions
    (fun x hx => happ x.2 (Transition.mem_of_mem_taken actions x hx))

/-- **In every run of the app, what is shown of a reference is what the operations of the waiting
writes make of what is known of it**: of every reference but a volunteer event whatever happens, and
of a volunteer event as long as no step leaves its overlay behind.  Profiles, which hold a time of
the server, are not covered. -/
theorem content_run (intl : Intl) (r : Ref) (hr : ∀ u, r ≠ .profile u) (actions : List DeviceAction)
    (happ : ∀ a ∈ actions, OfApp intl a)
    (hkeeps : (∃ e, r = .volunteer e) →
      ∀ x ∈ Transition.taken step start actions, x.1.store.KeepsUp r.path x.2.toAction) :
    ∀ t ∈ Transition.visited step start actions, Readable r t →
      ∃ ops, Forall₂ (DenotesApp intl) t.unanswered ops ∧
        ∀ m : Hive, m r = t.knownContent r → t.content r = ops.foldl (fun m op => op.run m) m r := by
  intro t ht hreadable
  have hfollows : Follows r.path t := by
    refine follows_run r.path actions (fun a ha => clientTimedAt_of_ofApp hr (happ a ha)) ?_ t ht
    by_cases hvolunteer : ∃ e, r = .volunteer e
    · exact hkeeps hvolunteer
    · refine keepsUp_of_not_updated actions fun a ha time d heq => hvolunteer ?_
      obtain ⟨q, hq⟩ := happ a ha time _ heq
      exact (appWrite_appWrites hq).of_update
  obtain ⟨ops, hops⟩ := exists_ops happ t ht
  exact ⟨ops, hops, fun m hm => hfollows.content_eq hreadable
    (hops.imp fun _ _ h => h.choose_spec.2.2) hm⟩

/-! Two taps on a device that has heard of the event, and the answer to the first. -/

instance (r : LocalStore.Recalculation DocStore.Path Value) (p : DocStore.Path) :
    Decidable (r.KeepsUp p) :=
  inferInstanceAs (Decidable (_ → _ → ∃ m ∈ r.store.pending p, _))

instance (s : LocalStore DocStore.Path Value) (p : DocStore.Path)
    (action : Action DocStore.Path Value) : Decidable (s.KeepsUp p action) :=
  inferInstanceAs (Decidable (∀ r ∈ s.recalculation action, r.KeepsUp p))

/-- What the Volunteer page shows Ann while `k` people are needed. -/
def foodDriveTile (k : Int) : VolunteerEventTile :=
  ⟨foodDrive.eventName, foodDrive.eventDes, "03/03/2025", foodDrive.startTime, foodDrive.endTime, k,
    foodDrive.eventLocation, some ann⟩

def tapActions (t : VolunteerEventTile) : List DeviceAction := (t.onTap marchThird).map (.write 0)

def twoTaps : List DeviceAction :=
  .remoteEvent [(volunteerPath foodDriveId, .found 3 (parseDictionary foodDrive.doc))] ::
    (tapActions (foodDriveTile 2) ++ tapActions (foodDriveTile 1) ++
      [.acknowledge 1 [⟨5, []⟩], .acknowledge 2 [⟨6, []⟩]])

/-- The second tap still waits. -/
def tapWaiting : Device := Transition.exec step start twoTaps

theorem ofApp_tapActions {t : VolunteerEventTile} (h : a ∈ tapActions t) : OfApp marchThird a := by
  rintro time w rfl
  obtain ⟨w', hw', heq⟩ := List.mem_map.1 h
  obtain ⟨-, rfl⟩ := DeviceAction.write.inj heq
  exact ⟨⟨∅, .store (.signUp t)⟩, hw'⟩

theorem ofApp_twoTaps : ∀ a ∈ twoTaps, OfApp marchThird a := by
  intro a ha
  simp only [twoTaps, List.mem_cons, List.mem_append, List.not_mem_nil, or_false] at ha
  rcases ha with rfl | (h | h) | rfl | rfl
  · rintro time w ⟨⟩
  · exact ofApp_tapActions h
  · exact ofApp_tapActions h
  · rintro time w ⟨⟩
  · rintro time w ⟨⟩

theorem keepsUp_twoTaps : ∀ x ∈ Transition.taken step start twoTaps,
    x.1.store.KeepsUp (volunteerPath foodDriveId) x.2.toAction := by decide +kernel

theorem readable_tapWaiting : Readable (.volunteer foodDriveId) tapWaiting := by
  have hknown : (tapWaiting.knownContent (.volunteer foodDriveId)).isSome = true := by
    decide +kernel
  intro d hd
  rw [knownContent, hd, Option.bind_some] at hknown
  exact .inl hknown

theorem content_run_twoTaps : ∃ ops, Forall₂ (DenotesApp marchThird) tapWaiting.unanswered ops ∧
    ∀ m : Hive, m (.volunteer foodDriveId) = tapWaiting.knownContent (.volunteer foodDriveId) →
      tapWaiting.content (.volunteer foodDriveId) =
        ops.foldl (fun m op => op.run m) m (.volunteer foodDriveId) :=
  content_run marchThird (.volunteer foodDriveId) (fun _ h => by cases h) twoTaps ofApp_twoTaps
    (fun _ => keepsUp_twoTaps) tapWaiting (Transition.mem_visited.2 (.inr rfl)) readable_tapWaiting

/-- One place is known to be taken, and the other one is shown taken. -/
example : (tapWaiting.knownContent (.volunteer foodDriveId)).map (·.val.numberOfPeople) = some 1 ∧
    (tapWaiting.content (.volunteer foodDriveId)).map (·.val.numberOfPeople) = some 0 := by
  decide +kernel

end Device

end TheHive
