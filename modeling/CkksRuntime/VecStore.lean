/-
  ckks-runtime formalization — the promise of a pending value (`api/vec_value.cpp`,
  `api/vec_api.cpp`).

  * `computeNow_metadata`: what `compute_now` returns has the metadata that
    `compute_metadata` returns on the same operands;
  * `VecState` is the state behind a handle, and `valueSystem` has the sequences of
    calls to `ready`, `pending`, `fulfill` and `fail`, of one thread or of many: the
    mutex of a state makes each call one step;
  * `vecValue_promise` assembles the two.
-/
import CkksRuntime.ComputeRules
import CkksRuntime.Transitions

namespace CkksRuntime

/-! ## The two case analyses -/

/-- The payload is of the kind and the metadata of the handle. -/
def VecValue.Honest (cells : ℕ → Cell) (v : VecValue) : Prop :=
  ∀ p, v.materialize cells = pure p → p.kind = v.kind ∧ p.metadata = v.metadata

theorem Blocking.bind_eq_pure {α β : Type} {x : Blocking α} {f : α → Blocking β} {b : β} :
    (x >>= f) = pure b ↔ ∃ a, x = pure a ∧ f a = pure b := by
  constructor
  · intro h
    rcases x with _ | (fault | a)
    · cases h
    · cases h
    · exact ⟨a, rfl, h⟩
  · rintro ⟨a, rfl, h⟩
    exact h

open PlanVerifier

namespace VecExecutor

variable {cells : ℕ → Cell} {op : ComputeOp}

theorem error_ne_ok {α : Type} {what : String} {a : α} : error what ≠ .ok a := by simp [error]

theorem requireCompatible_eq_ok {a b : VecPayload} {multiply : Bool} {u : Unit}
    (h : requireCompatible a b (!multiply) = .ok u) : Compatible multiply a.metadata b.metadata := by
  simp only [requireCompatible, error, bind, Except.bind, pure, Except.pure] at h
  split_ifs at h with hlen hbase hscale
  rw [not_or, not_or, not_or, not_not, not_not, not_not, not_not] at hbase
  refine ⟨hbase.1, hbase.2.1, hbase.2.2.1, hbase.2.2.2, ?_⟩
  rintro rfl
  by_contra hne
  exact hscale ⟨rfl, hne⟩

/-- A payload of an operation with one operand has the metadata that
    `compute_metadata` computes. -/
theorem unaryPayload_metadata {a p : VecPayload} {x : VecValue}
    (hop : expectedInputs op.kind = [.ciphertext]) (hkind : x.kind = .ciphertext)
    (hmeta : a.metadata = x.metadata) (h : unaryPayload op a = .ok p) :
    computeMetadata op [x] = .ok p.metadata ∧ p.kind = a.kind := by
  have hunary : unaryMetadata [x] = .ok a.metadata := by simp [unaryMetadata, hkind, hmeta]
  cases hk : op.kind with
  | negate =>
    simp only [unaryPayload, hk, Except.ok.injEq] at h
    subst h
    exact ⟨by simp only [computeMetadata, hk, hunary], rfl⟩
  | rotate =>
    cases hattrs : op.attrs with
    | rotate attrs =>
      simp only [unaryPayload, hk, hattrs] at h
      split at h
      · cases h
      · obtain rfl := Except.ok.inj h
        exact ⟨by simp only [computeMetadata, hk, hunary], rfl⟩
    | _ => simp [unaryPayload, hk, hattrs] at h
  | rescale =>
    cases hattrs : op.attrs with
    | rescale attrs =>
      simp only [unaryPayload, hk, hattrs] at h
      split_ifs at h with hlevel hscale
      · exact absurd h error_ne_ok
      · exact absurd h error_ne_ok
      · obtain rfl := Except.ok.inj h
        refine ⟨?_, rfl⟩
        simp only [computeMetadata, hk, hattrs, hunary, bind_eq_ok, Except.ok.injEq,
          exists_eq_left', hlevel, if_false, pure_eq_ok]
    | _ => simp [unaryPayload, hk, hattrs] at h
  | modSwitch =>
    cases hattrs : op.attrs with
    | modSwitch attrs =>
      simp only [unaryPayload, hk, hattrs] at h
      split_ifs at h with hlevel
      · exact absurd h error_ne_ok
      · obtain rfl := Except.ok.inj h
        refine ⟨?_, rfl⟩
        simp only [computeMetadata, hk, hattrs, hunary, bind_eq_ok, Except.ok.injEq,
          exists_eq_left', hlevel, if_false, pure_eq_ok]
    | _ => simp [unaryPayload, hk, hattrs] at h
  | relinearize =>
    simp only [unaryPayload, hk] at h
    split_ifs at h with hcomponents
    · exact absurd h error_ne_ok
    · obtain rfl := Except.ok.inj h
      refine ⟨?_, rfl⟩
      simp only [computeMetadata, hk, hunary, bind_eq_ok, Except.ok.injEq, exists_eq_left',
        hcomponents, if_false, pure_eq_ok]
  | boot =>
    cases hattrs : op.attrs with
    | boot attrs =>
      simp only [unaryPayload, hk, hattrs, Except.ok.injEq] at h
      subst h
      refine ⟨?_, rfl⟩
      simp only [computeMetadata, hk, hattrs, hunary, bind_eq_ok, Except.ok.injEq,
        exists_eq_left', pure_eq_ok]
    | _ => simp [unaryPayload, hk, hattrs] at h
  | _ => simp [hk, expectedInputs] at hop

/-- A payload of an operation with two operands has the metadata that
    `compute_metadata` computes. -/
theorem binaryPayload_metadata {a b p : VecPayload} {x y : VecValue} {rhsKind : ValueKind}
    {fn : Double → Double → Double} {multiply : Bool} (hx : x.kind = .ciphertext)
    (hy : y.kind = rhsKind) (ha : a.metadata = x.metadata) (hb : b.metadata = y.metadata)
    (h : binaryPayload a b rhsKind fn multiply = .ok p) :
    binaryMetadata [x, y] rhsKind multiply = .ok p.metadata ∧ p.kind = a.kind := by
  obtain ⟨u, hcompatible, hresult⟩ := bind_eq_ok.1 h
  have hagree := requireCompatible_eq_ok hcompatible
  rw [ha, hb] at hagree
  rw [binaryMetadata_eq hx hy hagree]
  cases multiply
  · obtain rfl := Except.ok.inj hresult
    exact ⟨congrArg Except.ok ha.symm, rfl⟩
  · obtain ⟨metadata, hmetadata, hp⟩ := bind_eq_ok.1 hresult
    obtain rfl := Except.ok.inj hp
    rw [ha, hb] at hmetadata
    exact ⟨hmetadata, rfl⟩

theorem unaryCipher_eq_pure {inputs : List VecValue} {a : VecPayload}
    (h : unaryCipher cells inputs = pure a) :
    ∃ x, inputs = [x] ∧ x.kind = .ciphertext ∧ x.materialize cells = pure a := by
  rcases inputs with _ | ⟨x, _ | ⟨y, rest⟩⟩
  · cases h
  · unfold unaryCipher at h
    dsimp only at h
    split_ifs at h with hk
    · cases h
    · exact ⟨x, rfl, not_not.1 hk, h⟩
  · cases h

theorem binary_eq_pure {inputs : List VecValue} {rhsKind : ValueKind}
    {fn : Double → Double → Double} {multiply : Bool} {p : VecPayload}
    (h : binary cells inputs rhsKind fn multiply = pure p) :
    ∃ x y a b, inputs = [x, y] ∧ x.kind = .ciphertext ∧ y.kind = rhsKind ∧
      x.materialize cells = pure a ∧ y.materialize cells = pure b ∧
        binaryPayload a b rhsKind fn multiply = .ok p := by
  rcases inputs with _ | ⟨x, _ | ⟨y, _ | ⟨z, rest⟩⟩⟩
  · cases h
  · cases h
  · unfold binary at h
    dsimp only at h
    split_ifs at h with hk
    · cases h
    · rw [not_or, not_not, not_not] at hk
      obtain ⟨a, ha, h⟩ := Blocking.bind_eq_pure.1 h
      obtain ⟨b, hb, h⟩ := Blocking.bind_eq_pure.1 h
      exact ⟨x, y, a, b, rfl, hk.1, hk.2, ha, hb, Option.some.inj h⟩
  · cases h

variable [DoubleArith]

/-- **What `compute_now` returns, `compute_metadata` foretold.** -/
theorem computeNow_metadata {inputs : List VecValue} (hinputs : ∀ v ∈ inputs, v.Honest cells)
    {p : VecPayload} (h : computeNow cells op inputs = pure p) :
    computeMetadata op inputs = .ok p.metadata ∧ p.kind = .ciphertext := by
  have hunary (hop : expectedInputs op.kind = [.ciphertext])
      (h : (unaryCipher cells inputs >>= fun a =>
        (some (unaryPayload op a) : Blocking VecPayload)) = pure p) :
      computeMetadata op inputs = .ok p.metadata ∧ p.kind = .ciphertext := by
    obtain ⟨a, ha, hp⟩ := Blocking.bind_eq_pure.1 h
    obtain ⟨x, rfl, hx, hmat⟩ := unaryCipher_eq_pure ha
    obtain ⟨hkind, hmeta⟩ := hinputs x (by simp) a hmat
    obtain ⟨hmetadata, hpk⟩ := unaryPayload_metadata hop hx hmeta (Option.some.inj hp)
    exact ⟨hmetadata, hpk.trans (hkind.trans hx)⟩
  have hbinary {rhsKind : ValueKind} {fn : Double → Double → Double} {multiply : Bool}
      (h : binary cells inputs rhsKind fn multiply = pure p) :
      binaryMetadata inputs rhsKind multiply = .ok p.metadata ∧ p.kind = .ciphertext := by
    obtain ⟨x, y, a, b, rfl, hx, hy, ha, hb, hp⟩ := binary_eq_pure h
    obtain ⟨hkind, hmeta⟩ := hinputs x (by simp) a ha
    obtain ⟨-, hmeta'⟩ := hinputs y (by simp) b hb
    obtain ⟨hmetadata, hpk⟩ := binaryPayload_metadata hx hy hmeta hmeta' hp
    exact ⟨hmetadata, hpk.trans (hkind.trans hx)⟩
  unfold computeNow at h
  cases hk : op.kind with
  | addCC | addCP | subCC | subCP | mulCC | mulCP =>
    simp only [hk] at h
    simpa only [computeMetadata, hk] using hbinary h
  | negate | rotate | rescale | modSwitch | relinearize | boot =>
    simp only [hk] at h
    exact hunary (by rw [hk]; rfl) h

end VecExecutor

/-! ## The shared states -/

/-- `VecValue::State`: what is promised, whether and with what it is fulfilled, and
    the error it failed with. -/
structure VecState where
  expectedKind : ValueKind
  expectedMetadata : VecMetadata
  ready : Bool
  payload : VecPayload
  error : Option Fault

namespace VecState

/-- `VecPayload{}`. -/
def noPayload : VecPayload := ⟨.plaintext, [], ⟨"", 0, 0, 0, true, 1⟩⟩

/-- The state of `VecValue::ready`. -/
def ofPayload (payload : VecPayload) : VecState :=
  ⟨payload.kind, payload.metadata, true, payload, none⟩

/-- The state of `VecValue::pending`. -/
def promise (kind : ValueKind) (metadata : VecMetadata) : VecState :=
  ⟨kind, metadata, false, noPayload, none⟩

/-- The condition that `materialize` waits for. -/
def Complete (s : VecState) : Prop := s.ready ∨ s.error.isSome

instance (s : VecState) : Decidable s.Complete := inferInstanceAs (Decidable (_ ∨ _))

def materialize (s : VecState) : Blocking VecPayload :=
  if s.Complete then
    match s.error with
    | some error => throw error
    | none => pure s.payload
  else (none : Option (Except Fault VecPayload))

def fulfill (s : VecState) (payload : VecPayload) : Except Fault VecState :=
  if payload.kind ≠ s.expectedKind ∨ payload.metadata ≠ s.expectedMetadata then
    .error (.runtimeError "VecValue fulfilled with wrong kind or metadata")
  else if s.Complete then .error (.runtimeError "VecValue completed twice")
  else .ok { s with payload := payload, ready := true }

def fail (s : VecState) (error : Fault) : Except Fault VecState :=
  if s.Complete then .error (.runtimeError "VecValue completed twice")
  else .ok { s with error := some error }

/-- The cell of a pending handle on the state. -/
def cell (s : VecState) : Cell :=
  if s.Complete then
    match s.error with
    | some error => .failed error
    | none => .ready s.payload
  else .waiting

/-- A fulfilled state holds what was promised, and did not fail. -/
structure Ok (s : VecState) : Prop where
  payload : s.ready → s.payload.kind = s.expectedKind ∧ s.payload.metadata = s.expectedMetadata
  once : ¬ (s.ready ∧ s.error.isSome)

/-- The promise of a state stays, and a complete state stays as it is. -/
structure Later (s s' : VecState) : Prop where
  kind : s'.expectedKind = s.expectedKind
  metadata : s'.expectedMetadata = s.expectedMetadata
  complete : s.Complete → s' = s

theorem ofPayload_ok (payload : VecPayload) : (ofPayload payload).Ok :=
  ⟨fun _ => ⟨rfl, rfl⟩, by simp [ofPayload]⟩

theorem promise_ok (kind : ValueKind) (metadata : VecMetadata) : (promise kind metadata).Ok :=
  ⟨by simp [promise], by simp [promise]⟩

theorem fulfill_eq_ok {s s' : VecState} {payload : VecPayload} :
    s.fulfill payload = .ok s' ↔
      (payload.kind = s.expectedKind ∧ payload.metadata = s.expectedMetadata) ∧ ¬ s.Complete ∧
        s' = { s with payload := payload, ready := true } := by
  unfold fulfill
  split_ifs with hwrong htwice
  · simp only [false_iff]
    rintro ⟨⟨hkind, hmeta⟩, -, -⟩
    exact hwrong.elim (fun h => h hkind) fun h => h hmeta
  · simp [htwice]
  · rw [not_or, not_not, not_not] at hwrong
    simp [hwrong, htwice, eq_comm]

theorem fail_eq_ok {s s' : VecState} {error : Fault} :
    s.fail error = .ok s' ↔ ¬ s.Complete ∧ s' = { s with error := some error } := by
  unfold fail
  split_ifs with htwice
  · simp [htwice]
  · simp [htwice, eq_comm]

theorem fulfill_ok {s s' : VecState} {payload : VecPayload}
    (h : s.fulfill payload = .ok s') : s'.Ok ∧ s.Later s' ∧ ¬ s.Complete ∧ s'.Complete := by
  obtain ⟨hpromise, hopen, rfl⟩ := fulfill_eq_ok.1 h
  refine ⟨⟨fun _ => hpromise, ?_⟩, ⟨rfl, rfl, fun hc => absurd hc hopen⟩, hopen, Or.inl rfl⟩
  rintro ⟨-, herror⟩
  exact hopen (Or.inr herror)

theorem Ok.fail {s s' : VecState} {error : Fault} (hs : s.Ok) (h : s.fail error = .ok s') :
    s'.Ok ∧ s.Later s' ∧ ¬ s.Complete ∧ s'.Complete := by
  obtain ⟨hopen, rfl⟩ := fail_eq_ok.1 h
  refine ⟨⟨hs.payload, ?_⟩, ⟨rfl, rfl, fun hc => absurd hc hopen⟩, hopen, Or.inr rfl⟩
  rintro ⟨hready, -⟩
  exact hopen (Or.inl hready)

/-- What `materialize` returns is what was promised. -/
theorem Ok.materialize {s : VecState} (hs : s.Ok) {p : VecPayload} (h : s.materialize = pure p) :
    p.kind = s.expectedKind ∧ p.metadata = s.expectedMetadata := by
  unfold VecState.materialize at h
  split_ifs at h with hc
  · cases herror : s.error with
    | some error => simp only [herror] at h; cases h
    | none =>
      simp only [herror] at h
      obtain rfl : s.payload = p := Except.ok.inj (Option.some.inj h)
      refine hs.payload (hc.resolve_right ?_)
      simp [herror]
  · cases h

end VecState

/-! ## Sequences of calls -/

/-- The states in the order of their creation; a `VecValue` is the number of its
    state. -/
abbrev VecStore := List VecState

inductive ValueCall where
  | ready (payload : VecPayload)
  | pending (kind : ValueKind) (metadata : VecMetadata)
  | fulfill (value : ℕ) (payload : VecPayload)
  | fail (value : ℕ) (error : Fault)

/-- A call, and what it throws. -/
structure ValueEvent where
  call : ValueCall
  result : Except Fault Unit

/-- A change of one state, or the exception that it throws. -/
inductive VecStore.Changes (store : VecStore) (value : ℕ) :
    Except Fault VecState → Except Fault Unit → VecStore → Prop
  | ok {s' : VecState} : Changes store value (.ok s') (.ok ()) (store.set value s')
  | error {fault : Fault} : Changes store value (.error fault) (.error fault) store

inductive ValueStep : VecStore → ValueEvent → VecStore → Prop
  | ready {store payload} :
    ValueStep store ⟨.ready payload, .ok ()⟩ (store ++ [VecState.ofPayload payload])
  | pending {store kind metadata} :
    ValueStep store ⟨.pending kind metadata, .ok ()⟩ (store ++ [VecState.promise kind metadata])
  | fulfill {store value s payload result store'} (hs : store[value]? = some s)
    (hresult : VecStore.Changes store value (s.fulfill payload) result store') :
    ValueStep store ⟨.fulfill value payload, result⟩ store'
  | fail {store value s error result store'} (hs : store[value]? = some s)
    (hresult : VecStore.Changes store value (s.fail error) result store') :
    ValueStep store ⟨.fail value error, result⟩ store'

/-- All sequences of calls. -/
def valueSystem : Transitions.System VecStore ValueEvent := ⟨fun store => store = [], ValueStep⟩

/-- The call completes the value. -/
def ValueEvent.Completes (value : ℕ) (event : ValueEvent) : Bool :=
  match event with
  | ⟨.fulfill v _, .ok _⟩ | ⟨.fail v _, .ok _⟩ => v = value
  | _ => false

namespace VecState

/-- The completions of the handles are those of the states. -/
theorem materialize_cell {s : VecState} {cells : ℕ → Cell} {i : ℕ} (h : cells i = s.cell) :
    (VecValue.pending s.expectedKind s.expectedMetadata i).materialize cells = s.materialize := by
  unfold VecValue.materialize VecState.materialize
  dsimp only
  rw [h, cell]
  split_ifs with hc
  · cases s.error <;> rfl
  · rfl

theorem cell_waiting {s : VecState} : s.cell = .waiting ↔ ¬ s.Complete := by
  unfold cell
  split_ifs with hc
  · cases s.error <;> simp [hc]
  · simp [hc]

/-- `VecValue.fulfill` and `VecValue.fail` are what the calls do to the cell of a state. -/
theorem cell_fulfill (s : VecState) (payload : VecPayload) :
    (s.fulfill payload).map cell =
      VecValue.fulfill s.expectedKind s.expectedMetadata s.cell payload := by
  unfold fulfill VecValue.fulfill
  split_ifs with hwrong hc
  · rfl
  · have hcell := mt cell_waiting.1 (not_not.2 hc)
    cases hcells : s.cell with
    | waiting => exact absurd hcells hcell
    | _ => rfl
  · have herror : s.error = none := by
      rw [← Option.not_isSome_iff_eq_none]
      exact fun h => hc (Or.inr h)
    rw [cell_waiting.2 hc]
    simp [Except.map, cell, Complete, herror]

theorem cell_fail (s : VecState) (error : Fault) :
    (s.fail error).map cell = VecValue.fail s.cell error := by
  unfold fail VecValue.fail
  split_ifs with hc
  · have hcell := mt cell_waiting.1 (not_not.2 hc)
    cases hcells : s.cell with
    | waiting => exact absurd hcells hcell
    | _ => rfl
  · rw [cell_waiting.2 hc]
    simp [Except.map, cell, Complete]

theorem Later.trans {s s' s'' : VecState} (h : s.Later s') (h' : s'.Later s'') : s.Later s'' := by
  refine ⟨h'.kind.trans h.kind, h'.metadata.trans h.metadata, fun hc => ?_⟩
  have hsame := h.complete hc
  rw [h'.complete (hsame ▸ hc), hsame]

theorem Later.refl (s : VecState) : s.Later s := ⟨rfl, rfl, fun _ => rfl⟩

end VecState

namespace VecStore

/-- Every state keeps its promise. -/
def Ok (store : VecStore) : Prop := ∀ s ∈ store, s.Ok

/-- The states stay, each as `VecState.Later` says. -/
def Later (store store' : VecStore) : Prop :=
  ∀ (i : ℕ) (s : VecState), store[i]? = some s → ∃ s', store'[i]? = some s' ∧ s.Later s'

theorem Later.trans {store store' store'' : VecStore} (h : store.Later store')
    (h' : store'.Later store'') : store.Later store'' := by
  intro i s hs
  obtain ⟨s', hs', hlater⟩ := h i s hs
  obtain ⟨s'', hs'', hlater'⟩ := h' i s' hs'
  exact ⟨s'', hs'', hlater.trans hlater'⟩

theorem Later.refl (store : VecStore) : store.Later store :=
  fun _ s hs => ⟨s, hs, .refl s⟩

theorem Ok.snoc {store : VecStore} (hok : store.Ok) {s : VecState} (hs : s.Ok) :
    Ok (store ++ [s]) ∧ store.Later (store ++ [s]) := by
  refine ⟨fun t ht => ?_, fun i t ht => ?_⟩
  · rcases List.mem_append.1 ht with ht | ht
    · exact hok t ht
    · rw [List.mem_singleton.1 ht]
      exact hs
  · refine ⟨t, ?_, .refl t⟩
    rw [List.getElem?_append_left (List.getElem?_eq_some_iff.1 ht).1, ht]

/-- One state changes as `VecState.Later` says. -/
theorem Ok.set {store : VecStore} (hok : store.Ok) {i : ℕ} {s s' : VecState}
    (hs : store[i]? = some s) (hs' : s'.Ok) (hlater : s.Later s') :
    Ok (store.set i s') ∧ store.Later (store.set i s') ∧ (store.set i s')[i]? = some s' := by
  have hi := (List.getElem?_eq_some_iff.1 hs).1
  have hself : (store.set i s')[i]? = some s' := List.getElem?_set_self hi
  refine ⟨fun t ht => ?_, fun j t ht => ?_, hself⟩
  · rcases List.mem_or_eq_of_mem_set ht with ht | rfl
    · exact hok t ht
    · exact hs'
  · rcases eq_or_ne i j with rfl | hne
    · obtain rfl : s = t := Option.some.inj (hs.symm.trans ht)
      exact ⟨s', hself, hlater⟩
    · exact ⟨t, (List.getElem?_set_ne hne).trans ht, .refl t⟩

/-- The handle on a state. -/
def value (store : VecStore) (i : ℕ) : Option VecValue :=
  store[i]?.map fun s => .pending s.expectedKind s.expectedMetadata i

/-- The completion of the states. -/
def cells (store : VecStore) (i : ℕ) : Cell := (store[i]?.map VecState.cell).getD .waiting

end VecStore

/-- **What one call can do.** -/
theorem ValueStep.spec {store store' : VecStore} {event : ValueEvent} (hok : store.Ok)
    (h : ValueStep store event store') :
    store'.Ok ∧ store.Later store' ∧ ∀ i, event.Completes i →
      (∃ s, store[i]? = some s ∧ ¬ s.Complete) ∧ ∃ s, store'[i]? = some s ∧ s.Complete := by
  have hchanges {i : ℕ} {s : VecState} {outcome result} (hs : store[i]? = some s)
      (hspec : ∀ s', outcome = .ok s' → s'.Ok ∧ s.Later s' ∧ ¬ s.Complete ∧ s'.Complete)
      (hresult : VecStore.Changes store i outcome result store') :
      store'.Ok ∧ store.Later store' ∧ (result = .ok () →
        (∃ s, store[i]? = some s ∧ ¬ s.Complete) ∧ ∃ s, store'[i]? = some s ∧ s.Complete) := by
    cases hresult with
    | ok =>
      obtain ⟨hs', hlater, hopen, hcomplete⟩ := hspec _ rfl
      obtain ⟨hok', hlater', hself⟩ := hok.set hs hs' hlater
      exact ⟨hok', hlater', fun _ => ⟨⟨s, hs, hopen⟩, ⟨_, hself, hcomplete⟩⟩⟩
    | error => exact ⟨hok, .refl store, fun hne => absurd hne (by simp)⟩
  cases h with
  | ready =>
    obtain ⟨hok', hlater⟩ := hok.snoc (VecState.ofPayload_ok _)
    exact ⟨hok', hlater, by simp [ValueEvent.Completes]⟩
  | pending =>
    obtain ⟨hok', hlater⟩ := hok.snoc (VecState.promise_ok _ _)
    exact ⟨hok', hlater, by simp [ValueEvent.Completes]⟩
  | @fulfill value s payload result _ hs hresult =>
    obtain ⟨hok', hlater, hcomplete⟩ := hchanges hs (fun s' h => VecState.fulfill_ok h) hresult
    refine ⟨hok', hlater, fun i hi => ?_⟩
    cases result with
    | ok u =>
      obtain rfl : value = i := by simpa [ValueEvent.Completes] using hi
      exact hcomplete rfl
    | error fault => simp [ValueEvent.Completes] at hi
  | @fail value s error result _ hs hresult =>
    have hmem := List.mem_of_getElem? hs
    obtain ⟨hok', hlater, hcomplete⟩ := hchanges hs (fun s' h => (hok s hmem).fail h) hresult
    refine ⟨hok', hlater, fun i hi => ?_⟩
    cases result with
    | ok u =>
      obtain rfl : value = i := by simpa [ValueEvent.Completes] using hi
      exact hcomplete rfl
    | error fault => simp [ValueEvent.Completes] at hi

/-- **What a sequence of calls can do.**  Each value is completed at most once, and
    a complete one no more. -/
theorem valueRun_spec {store store' : VecStore} {events : List ValueEvent} (hok : store.Ok)
    (h : valueSystem.Run store events store') :
    store'.Ok ∧ store.Later store' ∧ ∀ i, events.countP (·.Completes i) ≤ 1 ∧
      ∀ s, store[i]? = some s → s.Complete → events.countP (·.Completes i) = 0 := by
  induction h with
  | nil => exact ⟨hok, .refl _, by simp⟩
  | @cons store mid store' event events hstep _ ih =>
    obtain ⟨hok', hlater, hcompletes⟩ := ValueStep.spec hok hstep
    obtain ⟨hok'', hlater', hcount⟩ := ih hok'
    refine ⟨hok'', hlater.trans hlater', fun i => ?_⟩
    obtain ⟨hone, hzero⟩ := hcount i
    rw [List.countP_cons]
    by_cases hi : event.Completes i
    · obtain ⟨⟨s, hs, hopen⟩, s', hs', hcomplete⟩ := hcompletes i hi
      refine ⟨by rw [hzero s' hs' hcomplete, if_pos hi], fun t ht hc => ?_⟩
      obtain rfl : s = t := Option.some.inj (hs.symm.trans ht)
      exact absurd hc hopen
    · refine ⟨by rw [if_neg hi]; exact hone, fun s hs hc => ?_⟩
      obtain ⟨s', hs', hlater⟩ := hlater i s hs
      rw [if_neg hi, hzero s' hs' (by rw [hlater.complete hc]; exact hc)]

theorem valueSystem_ok {store : VecStore} (h : valueSystem.Reachable store) : store.Ok := by
  refine h.invariant (I := VecStore.Ok) ?_ fun _ _ _ _ hok hstep => (ValueStep.spec hok hstep).1
  rintro _ rfl s hs
  simp at hs

namespace VecStore

theorem value_eq_some {store : VecStore} {i : ℕ} {v : VecValue} :
    store.value i = some v ↔
      ∃ s, store[i]? = some s ∧ v = .pending s.expectedKind s.expectedMetadata i := by
  rw [value, Option.map_eq_some_iff]
  exact exists_congr fun s => and_congr_right fun _ => eq_comm

/-- A handle stays the handle of its state. -/
theorem Later.value {store store' : VecStore} (h : store.Later store') {i : ℕ} {v : VecValue}
    (hv : store.value i = some v) : store'.value i = some v := by
  obtain ⟨s, hs, rfl⟩ := value_eq_some.1 hv
  obtain ⟨s', hs', hlater⟩ := h i s hs
  exact value_eq_some.2 ⟨s', hs', by rw [hlater.kind, hlater.metadata]⟩

/-- The payload of a handle is the one that was promised. -/
theorem Ok.honest {store : VecStore} (hok : store.Ok) {i : ℕ} {v : VecValue}
    (hv : store.value i = some v) : v.Honest store.cells := by
  obtain ⟨s, hs, rfl⟩ := value_eq_some.1 hv
  intro p hp
  rw [VecState.materialize_cell (by rw [cells, hs]; rfl)] at hp
  exact (hok s (List.mem_of_getElem? hs)).materialize hp

/-- The value is the handle on some state. -/
def Holds (store : VecStore) (v : VecValue) : Prop := ∃ i, store.value i = some v

theorem Ok.honest_of_holds {store : VecStore} (hok : store.Ok) {inputs : List VecValue}
    (h : ∀ v ∈ inputs, store.Holds v) : ∀ v ∈ inputs, v.Honest store.cells := by
  intro v hv
  obtain ⟨i, hi⟩ := h v hv
  exact hok.honest hi

theorem Later.holds {store store' : VecStore} (h : store.Later store') {v : VecValue}
    (hv : store.Holds v) : store'.Holds v := by
  obtain ⟨i, hi⟩ := hv
  exact ⟨i, h.value hi⟩

end VecStore

/-- A payload as promised is never refused for its kind or metadata. -/
theorem VecState.fulfill_promised {s : VecState} {payload : VecPayload}
    (h : payload.kind = s.expectedKind ∧ payload.metadata = s.expectedMetadata) :
    s.fulfill payload ≠
      .error (.runtimeError "VecValue fulfilled with wrong kind or metadata") := by
  unfold VecState.fulfill
  rw [if_neg (by simp [h])]
  split_ifs
  · simp
  · simp

/-- **A pending value keeps its promise.**  After every sequence of calls: what
    `compute_now` returns on any operands has the metadata that `compute_metadata`
    returns, and is a ciphertext; so the `fulfill` of a value that was created
    pending with these metadata is not refused for them, however many calls came
    between; a value completes at most once; and a payload has the kind and the metadata
    that its handle had from its creation on, hence the same verdict. -/
theorem vecValue_promise [DoubleArith] :
    (∀ store, valueSystem.Reachable store → ∀ inputs, (∀ v ∈ inputs, store.Holds v) →
      ∀ op p, VecExecutor.computeNow store.cells op inputs = pure p →
          VecExecutor.computeMetadata op inputs = .ok p.metadata ∧ p.kind = .ciphertext) ∧
    (∀ store, valueSystem.Reachable store → ∀ inputs, (∀ v ∈ inputs, store.Holds v) →
      ∀ op metadata, VecExecutor.computeMetadata op inputs = .ok metadata → ∀ events store',
          valueSystem.Run (store ++ [VecState.promise .ciphertext metadata]) events store' →
            ∀ p, VecExecutor.computeNow store'.cells op inputs = pure p →
              ∃ s, store'[store.length]? = some s ∧ s.fulfill p ≠
                .error (.runtimeError "VecValue fulfilled with wrong kind or metadata")) ∧
    (∀ events store, valueSystem.Run [] events store → ∀ i, events.countP (·.Completes i) ≤ 1) ∧
    ∀ store, valueSystem.Reachable store → ∀ events store', valueSystem.Run store events store' →
      ∀ i v, store.value i = some v → store'.value i = some v ∧
        ∀ p, v.materialize store'.cells = pure p → p.kind = v.kind ∧ p.metadata = v.metadata ∧
          ∀ polyDegree d, validateValue polyDegree v d = validateValue polyDegree (.ready p) d := by
  refine ⟨?_, ?_, ?_, ?_⟩
  · intro store hstore inputs hinputs op p hp
    exact VecExecutor.computeNow_metadata ((valueSystem_ok hstore).honest_of_holds hinputs) hp
  · intro store hstore inputs hinputs op metadata hmetadata events store' hrun p hp
    have hok := valueSystem_ok hstore
    obtain ⟨hok', hlater'⟩ := hok.snoc (VecState.promise_ok .ciphertext metadata)
    obtain ⟨hok'', hlater'', -⟩ := valueRun_spec hok' hrun
    obtain ⟨s, hs, hpromise⟩ := hlater'' store.length (VecState.promise .ciphertext metadata)
      (by simp)
    have hinputs' : ∀ v ∈ inputs, store'.Holds v :=
      fun v hv => (hlater'.trans hlater'').holds (hinputs v hv)
    obtain ⟨hmeta, hkind⟩ := VecExecutor.computeNow_metadata (hok''.honest_of_holds hinputs') hp
    refine ⟨s, hs, VecState.fulfill_promised ⟨hkind.trans hpromise.kind.symm, ?_⟩⟩
    rw [hpromise.metadata]
    exact Except.ok.inj (hmeta.symm.trans hmetadata)
  · intro events store hrun i
    have hok : VecStore.Ok [] := fun s hs => absurd hs (by simp)
    exact ((valueRun_spec hok hrun).2.2 i).1
  · intro store hstore events store' hrun i v hv
    obtain ⟨hok', hlater, -⟩ := valueRun_spec (valueSystem_ok hstore) hrun
    refine ⟨hlater.value hv, fun p hp => ?_⟩
    obtain ⟨hkind, hmeta⟩ := hok'.honest (hlater.value hv) p hp
    refine ⟨hkind, hmeta, fun polyDegree d => ?_⟩
    unfold validateValue
    change _ = if p.kind ≠ d.kind ∨ p.metadata.context ≠ d.context ∨ _ then _ else _
    rw [← hkind, ← hmeta]
    rfl

end CkksRuntime
