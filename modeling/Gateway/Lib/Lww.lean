import Mathlib.Data.Prod.Lex
import Mathlib.Order.Lattice
import Gateway.Lib.Dict

/-!
Last-writer-wins maps with Lamport timestamps.

An entry is a value with its version, a timestamp and the id of the writer that
breaks ties. A map carries a clock. A local write stamps the ticked clock and
overwrites unconditionally; a remote entry advances the clock and is adopted when
its version is greater than the stored one.

`Tracks m K` says that `m` is what its owner should hold after the operations `K`:
the entry of every key is the operation on it with the greatest version, and the
clock dominates all timestamps. Every operation of the map extends `K` by what it
takes in (`Tracks.setLocal`, `Tracks.apply`, `Tracks.merge`), so a map depends on
the set of operations alone (`Tracks.get?_eq`), not on order or repetition.
-/

namespace Gateway

/-- A value and the version under which it was written. -/
structure Entry (V O : Type) where
  value : V
  ts : Int
  origin : O
  deriving DecidableEq, Repr

/-- The version of an entry: timestamps first, then writers. -/
def Entry.version {V O : Type} (e : Entry V O) : Int ×ₗ O := toLex (e.ts, e.origin)

/-- A last-writer-wins map from `K` to `V` with writers in `O`. -/
structure Lww (K V O : Type) where
  entries : Dict K (Entry V O)
  clock : Int

namespace Lww

variable {K V O : Type}

/-- The map without entries. -/
def empty : Lww K V O := ⟨.empty, 0⟩

/-- Advance the clock to a timestamp seen. -/
def observe (m : Lww K V O) (ts : Int) : Lww K V O :=
  if m.clock < ts then { m with clock := ts } else m

variable [DecidableEq K]

/-- A local write, with the timestamp it stamps. -/
def setLocal (m : Lww K V O) (k : K) (v : V) (origin : O) : Lww K V O × Int :=
  let ts := m.clock + 1
  (⟨m.entries.set k ⟨v, ts, origin⟩, ts⟩, ts)

variable [LinearOrder O]

/-- Take in a remote entry; also returns whether it was adopted and, by `differs`,
changed the value. -/
def apply (differs : V → V → Bool) (m : Lww K V O) (k : K) (e : Entry V O) : Lww K V O × Bool :=
  let m := m.observe e.ts
  match m.entries.get? k with
  | none => ({ m with entries := m.entries.set k e }, true)
  | some cur =>
      if cur.version < e.version then
        ({ m with entries := m.entries.set k e }, differs cur.value e.value)
      else (m, false)

/-- Take in a list of remote entries, one after the other. -/
def applyAll (differs : V → V → Bool) :
    Lww K V O → List (K × Entry V O) → Lww K V O × Bool
  | m, [] => (m, false)
  | m, (k, e) :: rest =>
      let (m, changed) := m.apply differs k e
      let (m, changed') := applyAll differs m rest
      (m, changed || changed')

theorem applyAll_append (differs : V → V → Bool) (m : Lww K V O)
    (ops ops' : List (K × Entry V O)) :
    m.applyAll differs (ops ++ ops') =
      (((m.applyAll differs ops).1.applyAll differs ops').1,
        (m.applyAll differs ops).2 || ((m.applyAll differs ops).1.applyAll differs ops').2) := by
  induction ops generalizing m with
  | nil => simp [applyAll]
  | cons op rest ih =>
      obtain ⟨k, e⟩ := op
      simp only [List.cons_append, applyAll, ih, Bool.or_assoc]

/-- Take in a peer's whole map. -/
def merge (differs : V → V → Bool) (m : Lww K V O) (digest : Dict K (Entry V O)) :
    Lww K V O × Bool :=
  m.applyAll differs digest.items

/-! ### Point lemmas -/

omit [DecidableEq K] [LinearOrder O] in
@[simp] theorem entries_observe (m : Lww K V O) (ts : Int) :
    (m.observe ts).entries = m.entries := by
  rw [observe]
  split <;> rfl

omit [DecidableEq K] [LinearOrder O] in
@[simp] theorem clock_observe (m : Lww K V O) (ts : Int) :
    (m.observe ts).clock = max m.clock ts := by
  rw [observe]
  split <;> simp <;> omega

/-- Of a stored and a new entry, the one that a map keeps. -/
def newer (cur : Option (Entry V O)) (e : Entry V O) : Entry V O :=
  match cur with
  | none => e
  | some cur => if cur.version < e.version then e else cur

variable {differs : V → V → Bool}

@[simp] theorem clock_apply (m : Lww K V O) (k : K) (e : Entry V O) :
    (m.apply differs k e).1.clock = max m.clock e.ts := by
  simp only [apply]
  split
  · simp
  · split <;> simp

theorem get?_apply (m : Lww K V O) (k k' : K) (e : Entry V O) :
    (m.apply differs k e).1.entries.get? k' =
      if k' = k then some (newer (m.entries.get? k) e) else m.entries.get? k' := by
  simp only [apply, entries_observe, newer]
  cases stored : m.entries.get? k with
  | none => simp
  | some cur =>
      dsimp only
      split
      · simp
      · by_cases same : k' = k
        · subst same
          simp [stored]
        · simp [same]

omit [LinearOrder O] in
theorem get?_setLocal (m : Lww K V O) (k k' : K) (v : V) (origin : O) :
    (m.setLocal k v origin).1.entries.get? k' =
      if k' = k then some ⟨v, m.clock + 1, origin⟩ else m.entries.get? k' := by
  simp [setLocal]

theorem version_le_newer {cur : Option (Entry V O)} {e : Entry V O} :
    e.version ≤ (newer cur e).version ∧ ∀ c, cur = some c → c.version ≤ (newer cur e).version := by
  cases cur with
  | none => simp [newer]
  | some c =>
      simp only [newer, Option.some.injEq, forall_eq']
      split
      · rename_i less
        exact ⟨le_refl _, less.le⟩
      · rename_i less
        exact ⟨not_lt.mp less, le_refl _⟩

theorem newer_eq (cur : Option (Entry V O)) (e : Entry V O) :
    newer cur e = e ∨ cur = some (newer cur e) := by
  cases cur with
  | none => exact .inl rfl
  | some c =>
      simp only [newer]
      split
      · exact .inl rfl
      · exact .inr rfl

/-- What a map holds after a batch it held before, or took from the batch. -/
theorem stored_applyAll {ops : List (K × Entry V O)} {m : Lww K V O} {k : K} {e : Entry V O}
    (held : (m.applyAll differs ops).1.entries.get? k = some e) :
    m.entries.get? k = some e ∨ (k, e) ∈ ops := by
  induction ops generalizing m with
  | nil => exact .inl held
  | cons op rest ih =>
      obtain ⟨k', e'⟩ := op
      rcases ih held with before | later
      · change (m.apply differs k' e').1.entries.get? k = some e at before
        rw [get?_apply] at before
        split at before
        · rename_i here
          subst here
          rcases newer_eq (m.entries.get? k) e' with new | old
          · rw [new] at before
            cases before
            exact .inr List.mem_cons_self
          · exact .inl (old.trans before)
        · exact .inl before
      · exact .inr (List.mem_cons_of_mem _ later)

/-- No key is ever lost. -/
theorem get?_applyAll_eq_none {ops : List (K × Entry V O)} {m : Lww K V O} {k : K}
    (none_held : (m.applyAll differs ops).1.entries.get? k = none) : m.entries.get? k = none := by
  induction ops generalizing m with
  | nil => exact none_held
  | cons op rest ih =>
      obtain ⟨k', e⟩ := op
      have before : (m.apply differs k' e).1.entries.get? k = none := ih none_held
      rw [get?_apply] at before
      split at before
      · cases before
      · exact before

/-- What is not reported as a change leaves alone whatever of the values the test for a
change sees. -/
theorem seen_applyAll {W : Type} {f : V → W} (sees : ∀ v v', differs v v' = false → f v = f v')
    {ops : List (K × Entry V O)} {m : Lww K V O} (same : (m.applyAll differs ops).2 = false)
    (k : K) :
    ((m.applyAll differs ops).1.entries.get? k).map (fun e => f e.value) =
      (m.entries.get? k).map fun e => f e.value := by
  induction ops generalizing m with
  | nil => rfl
  | cons op rest ih =>
      obtain ⟨k', e⟩ := op
      simp only [applyAll, Bool.or_eq_false_iff] at same ⊢
      rw [ih same.2, get?_apply]
      split
      · rename_i here
        subst here
        have unchanged := same.1
        simp only [apply, entries_observe] at unchanged
        cases stored : m.entries.get? k with
        | none => simp [stored] at unchanged
        | some cur =>
            simp only [stored] at unchanged
            simp only [newer, Option.map_some]
            split at unchanged
            · rename_i less
              rw [if_pos less, sees _ _ unchanged]
            · rename_i less
              rw [if_neg less]
      · rfl

/-- If the test for a change sees the whole value, nothing changes. -/
theorem value_applyAll (sees : ∀ v v', differs v v' = false → v = v') {ops : List (K × Entry V O)}
    {m : Lww K V O} (same : (m.applyAll differs ops).2 = false) (k : K) :
    ((m.applyAll differs ops).1.entries.get? k).map Entry.value =
      (m.entries.get? k).map Entry.value :=
  seen_applyAll (f := id) sees same k

/-! ### What a map holds -/

/-- The map `m` is what the operations `ops` leave. -/
structure Tracks (m : Lww K V O) (ops : List (K × Entry V O)) : Prop where
  stored : ∀ {k e}, m.entries.get? k = some e → (k, e) ∈ ops
  greatest : ∀ {k e}, (k, e) ∈ ops → ∃ e', m.entries.get? k = some e' ∧ e.version ≤ e'.version
  clock : ∀ {k e}, (k, e) ∈ ops → e.ts ≤ m.clock

variable {m m' : Lww K V O} {ops ops' : List (K × Entry V O)}

theorem tracks_empty : Tracks (empty : Lww K V O) [] where
  stored := fun h => by cases h
  greatest := fun h => by cases h
  clock := fun h => by cases h

theorem version_lt_of_ts_lt {e e' : Entry V O} (less : e.ts < e'.ts) : e.version < e'.version :=
  Prod.Lex.toLex_lt_toLex.mpr (.inl less)

/-- The stamp of a local write exceeds every version the map has taken in. -/
theorem Tracks.version_lt_setLocal (tracks : Tracks m ops) {k : K} {e : Entry V O}
    (member : (k, e) ∈ ops) (v : V) (origin : O) :
    e.version < Entry.version ⟨v, m.clock + 1, origin⟩ := by
  have := tracks.clock member
  exact version_lt_of_ts_lt (Int.lt_add_one_of_le this)

theorem Tracks.setLocal (tracks : Tracks m ops) (k : K) (v : V) (origin : O) :
    Tracks (m.setLocal k v origin).1 (ops ++ [(k, ⟨v, m.clock + 1, origin⟩)]) where
  stored := by
    intro k' e held
    rw [get?_setLocal] at held
    split at held
    · rename_i same
      cases held
      simp [same]
    · exact List.mem_append_left _ (tracks.stored held)
  greatest := by
    intro k' e member
    rw [get?_setLocal]
    rcases List.mem_append.mp member with before | new
    · obtain ⟨e', held, le⟩ := tracks.greatest before
      by_cases same : k' = k
      · exact ⟨_, if_pos same, (tracks.version_lt_setLocal before v origin).le⟩
      · exact ⟨e', by rw [if_neg same, held], le⟩
    · simp only [List.mem_singleton, Prod.mk.injEq] at new
      exact ⟨_, if_pos new.1, by rw [new.2]⟩
  clock := by
    intro k' e member
    show e.ts ≤ m.clock + 1
    rcases List.mem_append.mp member with before | new
    · have := tracks.clock before
      omega
    · simp only [List.mem_singleton, Prod.mk.injEq] at new
      rw [new.2]

theorem Tracks.apply (tracks : Tracks m ops) (differs : V → V → Bool) (k : K) (e : Entry V O) :
    Tracks (m.apply differs k e).1 (ops ++ [(k, e)]) where
  stored := by
    intro k' e' held
    rw [get?_apply] at held
    split at held
    · rename_i same
      subst same
      cases held
      rcases newer_eq (m.entries.get? k') e with new | old
      · simp [new]
      · exact List.mem_append_left _ (tracks.stored old)
    · exact List.mem_append_left _ (tracks.stored held)
  greatest := by
    intro k' e' member
    rw [get?_apply]
    rcases List.mem_append.mp member with before | new
    · obtain ⟨cur, held, le⟩ := tracks.greatest before
      by_cases same : k' = k
      · subst same
        exact ⟨_, if_pos rfl, le.trans (version_le_newer.2 cur held)⟩
      · exact ⟨cur, by rw [if_neg same, held], le⟩
    · simp only [List.mem_singleton, Prod.mk.injEq] at new
      obtain ⟨rfl, rfl⟩ := new
      exact ⟨_, if_pos rfl, version_le_newer.1⟩
  clock := by
    intro k' e' member
    rw [clock_apply]
    rcases List.mem_append.mp member with before | new
    · exact (tracks.clock before).trans (le_max_left _ _)
    · simp only [List.mem_singleton, Prod.mk.injEq] at new
      rw [new.2]
      exact le_max_right _ _

theorem Tracks.applyAll (tracks : Tracks m ops) (differs : V → V → Bool) (more : List (K × Entry V O)) :
    Tracks (m.applyAll differs more).1 (ops ++ more) := by
  induction more generalizing m ops with
  | nil => simpa [Lww.applyAll] using tracks
  | cons op rest ih =>
      obtain ⟨k, e⟩ := op
      have := ih (tracks.apply differs k e)
      rw [List.append_assoc, List.singleton_append] at this
      exact this

theorem Tracks.merge (tracks : Tracks m ops) (differs : V → V → Bool) (digest : Dict K (Entry V O)) :
    Tracks (m.merge differs digest).1 (ops ++ digest.items) :=
  tracks.applyAll differs digest.items

/-- A map tracks its own entries, together with any operations it has taken in. -/
theorem Tracks.absorb (tracks : Tracks m ops) {seen : List (K × Entry V O)}
    (known : ∀ op ∈ seen, op ∈ ops) : Tracks m (seen ++ m.entries.items) where
  stored := fun held => List.mem_append_right _ (Dict.mem_items_iff.mpr held)
  greatest := by
    intro k e member
    rcases List.mem_append.mp member with old | held
    · exact tracks.greatest (known _ old)
    · exact ⟨e, Dict.mem_items_iff.mp held, le_refl _⟩
  clock := by
    intro k e member
    rcases List.mem_append.mp member with old | held
    · exact tracks.clock (known _ old)
    · exact tracks.clock (tracks.stored (Dict.mem_items_iff.mp held))

theorem Tracks.self (tracks : Tracks m ops) : Tracks m m.entries.items := by
  have none_seen : ∀ op ∈ ([] : List (K × Entry V O)), op ∈ ops := fun _ member => by cases member
  simpa using tracks.absorb none_seen

/-- The entry of a key is the operation on it with the greatest version. -/
theorem Tracks.get?_eq_some_iff (tracks : Tracks m ops)
    (unique : ∀ {k e k' e'}, (k, e) ∈ ops → (k', e') ∈ ops → e.version = e'.version → e = e')
    {k : K} {e : Entry V O} :
    m.entries.get? k = some e ↔
      (k, e) ∈ ops ∧ ∀ e', (k, e') ∈ ops → e'.version ≤ e.version := by
  constructor
  · intro held
    refine ⟨tracks.stored held, fun e' member => ?_⟩
    obtain ⟨cur, held', le⟩ := tracks.greatest member
    rw [held] at held'
    cases held'
    exact le
  · rintro ⟨member, top⟩
    obtain ⟨cur, held, le⟩ := tracks.greatest member
    have stored := tracks.stored held
    rw [held, unique stored member (le_antisymm (top cur stored) le)]

/-- **A map depends on the set of its operations alone.** -/
theorem Tracks.get?_eq (tracks : Tracks m ops) (tracks' : Tracks m' ops')
    (same : ∀ k e, (k, e) ∈ ops ↔ (k, e) ∈ ops')
    (unique : ∀ {k e k' e'}, (k, e) ∈ ops → (k', e') ∈ ops → e.version = e'.version → e = e')
    (k : K) : m.entries.get? k = m'.entries.get? k := by
  have unique' : ∀ {k e k' e'}, (k, e) ∈ ops' → (k', e') ∈ ops' → e.version = e'.version →
      e = e' := fun h h' => unique ((same _ _).mpr h) ((same _ _).mpr h')
  refine Option.ext fun e => ?_
  rw [tracks.get?_eq_some_iff unique, tracks'.get?_eq_some_iff unique']
  simp only [same]

end Lww

end Gateway
