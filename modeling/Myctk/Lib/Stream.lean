import Myctk.Lib.Bytes

/-! Writing records to a file and reading them back. A write may fail, and what is written is read from the front of what is
    left of the file. -/

namespace Myctk.Lib

open List

abbrev Reader (ε : Type) := ExceptT ε (StateM Bytes)

structure Codec (α : Type) where
  encode : α → Bytes
  decode : Bytes → Option α

def Codec.Faithful {α : Type} (c : Codec α) (x : α) : Prop := c.decode (c.encode x) = some x

open Classical in
noncomputable def Codec.ofEncode {α : Type} (encode : α → Bytes) : Codec α where
  encode := encode
  decode b := if known : ∃ x, encode x = b then some known.choose else none

lemma Codec.faithful_ofEncode {α : Type} {encode : α → Bytes} (injective : ∀ x y, encode x = encode y → x = y) (x : α) :
    (ofEncode encode).Faithful x := by
  have known : ∃ y, encode y = encode x := ⟨x, rfl⟩
  have same : known.choose = x := injective _ _ known.choose_spec
  exact (dif_pos known).trans (congrArg some same)

open Classical in
lemma Codec.exists_short {α : Type} [Countable α] (default sample : α) :
    ∃ c : Codec α, (∀ x, c.Faithful x) ∧ (∀ x, c.encode x = [] ↔ x = default) ∧ (c.encode sample).length < 2 ^ 32 := by
  obtain ⟨number, injective⟩ := Countable.exists_injective_nat α
  let encode (x : α) : Bytes := if x = default then [] else if x = sample then [0] else 1 :: replicate (number x) 0
  have empty : ∀ x, encode x = [] ↔ x = default := by
    intro x
    dsimp only [encode]
    split_ifs <;> simp_all
  refine ⟨.ofEncode encode, Codec.faithful_ofEncode fun x y same => ?_, empty, ?_⟩
  · by_cases first : x = default
    · exact first.trans ((empty y).mp (same ▸ (empty x).mpr first)).symm
    · have second : y ≠ default := fun isDefault => first ((empty x).mp (same ▸ (empty y).mpr isDefault))
      simp only [encode, if_neg first, if_neg second] at same
      split_ifs at same with here there there
      · exact here.trans there.symm
      · simp at same
      · simp at same
      · refine injective ?_
        have lengths := congrArg length same
        simpa using lengths
  · show (if sample = default then [] else if sample = sample then [0] else _ : Bytes).length < 2 ^ 32
    rw [if_pos rfl]
    split_ifs <;> decide

namespace Stream

variable {ε α β : Type}

def andThen (w w' : Option Bytes) : Option Bytes := do return (← w) ++ (← w')

def each (write : α → Option Bytes) : List α → Option Bytes
  | [] => some []
  | x :: xs => andThen (write x) (each write xs)

def many (read : Reader ε α) : Nat → Reader ε (List α)
  | 0 => pure []
  | n + 1 => do
    let x ← read
    let xs ← many read n
    return x :: xs

variable {w w' : Option Bytes} {b rest : Bytes} {write : α → Option Bytes} {xs : List α} {r : Reader ε α} {f : α → Reader ε β} {a : α}
  {x : β}

lemma andThen_eq_some : andThen w w' = some b ↔ ∃ b1 b2, w = some b1 ∧ w' = some b2 ∧ b = b1 ++ b2 := by
  cases w with
  | none => simp [andThen]
  | some b1 => cases w' <;> simp [andThen, eq_comm]

lemma isSome_andThen : (andThen w w').isSome ↔ w.isSome ∧ w'.isSome := by
  cases w <;> cases w' <;> simp [andThen]

lemma andThen_assoc (w w' w'' : Option Bytes) : andThen (andThen w w') w'' = andThen w (andThen w' w'') := by
  cases w <;> cases w' <;> cases w'' <;> simp [andThen]

lemma length_le_of_each (some_ : ∀ x b, write x = some b → b ≠ [])
    (wrote : each write xs = some b) : xs.length ≤ b.length := by
  induction xs generalizing b with
  | nil => exact Nat.zero_le _
  | cons x xs ih =>
    obtain ⟨b1, b2, first, others, rfl⟩ := andThen_eq_some.mp wrote
    have pos := length_pos_iff.mpr (some_ x b1 first)
    have le := ih others
    rw [length_append, length_cons]
    omega

lemma each_map (write : α → Option Bytes) (f : β → α) (xs : List β) : each write (xs.map f) = each (fun x => write (f x)) xs := by
  induction xs with
  | nil => rfl
  | cons x xs ih => rw [map_cons, each, ih, each]

lemma isSome_each : (each write xs).isSome ↔ ∀ x ∈ xs, (write x).isSome := by
  induction xs with
  | nil => simp [each]
  | cons x xs ih => rw [each, isSome_andThen, ih, forall_mem_cons]

def Reads (w : Option Bytes) (r : Reader ε α) (a : α) : Prop := ∀ b, w = some b → ∀ rest, r.run (b ++ rest) = (.ok a, rest)

lemma Reads.pure (a : α) : Reads (some []) (pure a : Reader ε α) a := by
  intro b eq rest
  cases eq
  rfl

lemma run_bind (first : r.run b = (.ok a, rest)) : (r >>= f).run b = (f a).run rest := by
  show (match r.run b with | (x, rest) => (ExceptT.bindCont f x).run rest) = _
  rw [first]
  rfl

lemma run_bind_eq_ok {y : β} (ok : (r >>= f).run b = (.ok y, rest)) :
    ∃ a mid, r.run b = (.ok a, mid) ∧ (f a).run mid = (.ok y, rest) := by
  change (match r.run b with | (x, rest) => (ExceptT.bindCont f x).run rest) = _ at ok
  rcases read : r.run b with ⟨_ | a, mid⟩
  · rw [read] at ok
    cases ok
  · rw [read] at ok
    exact ⟨a, mid, rfl, ok⟩

lemma Reads.bind (first : Reads w r a) (second : Reads w' (f a) x) : Reads (andThen w w') (r >>= f) x := by
  intro b eq rest
  obtain ⟨b1, b2, wrote, wrote', rfl⟩ := andThen_eq_some.mp eq
  rw [append_assoc, run_bind (first b1 wrote _)]
  exact second b2 wrote' rest

lemma Reads.then (reads : Reads w r a) (rest : ∀ b, (f a).run b = (.ok x, b)) : Reads w (r >>= f) x := by
  intro b eq more
  rw [run_bind (reads b eq more)]
  exact rest more

lemma Reads.tryCatch (reads : Reads w r a) (handle : ε → Reader ε α) : Reads w (MonadExcept.tryCatch r handle) a := by
  intro b eq rest
  have read : r (b ++ rest) = (.ok a, rest) := reads b eq rest
  show ExceptT.tryCatch r handle (b ++ rest) = _
  simp only [ExceptT.tryCatch, ExceptT.mk, Bind.bind, StateT.bind, read]
  rfl

lemma Reads.many {write : β → Option Bytes} {value : β → α} {xs : List β}
    (reads : ∀ x ∈ xs, Reads (write x) r (value x)) : Reads (each write xs) (many r xs.length) (xs.map value) := by
  induction xs with
  | nil => exact .pure []
  | cons x xs ih =>
    have rest := ih fun y member => reads y (mem_cons_of_mem x member)
    exact (reads x mem_cons_self).bind (rest.then fun _ => rfl)

lemma Reads.many_self (reads : ∀ x ∈ xs, Reads (write x) r x) : Reads (each write xs) (Stream.many r xs.length) xs := by
  have all := Reads.many reads
  rw [map_id'] at all
  exact all

lemma forall_mem_many {Q : α → Prop} (one : ∀ {b rest x}, r.run b = (.ok x, rest) → Q x) {n : Nat}
    (ok : (many r n).run b = (.ok xs, rest)) : ∀ x ∈ xs, Q x := by
  induction n generalizing b xs with
  | zero =>
    cases ok
    exact fun _ none => (nomatch none)
  | succ n ih =>
    obtain ⟨x, mid, first, ok⟩ := run_bind_eq_ok ok
    obtain ⟨xs', mid', others, ok⟩ := run_bind_eq_ok ok
    cases ok
    exact forall_mem_cons.mpr ⟨one first, ih others⟩

end Stream

end Myctk.Lib
