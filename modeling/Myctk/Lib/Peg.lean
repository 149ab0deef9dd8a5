/-! Parsing expressions: a choice takes its first alternative that matches, a repetition takes what it can, and where
    something is expected that is not there the parse is given up. -/

namespace Myctk.Lib.Peg

open List Nat

variable {τ α β : Type}

inductive Result (τ α : Type) where
  | matched (a : α) (rest : List τ)
  | failed
  | thrown
  | unfinished

def Parser (τ α : Type) : Type := List τ → Result τ α

namespace Parser

def pure (a : α) : Parser τ α := fun s => .matched a s

def bind (p : Parser τ α) (f : α → Parser τ β) : Parser τ β := fun s =>
  match p s with
  | .matched a rest => f a rest
  | .failed => .failed
  | .thrown => .thrown
  | .unfinished => .unfinished

def map (f : α → β) (p : Parser τ α) : Parser τ β := p.bind fun a => pure (f a)

def orElse (p q : Parser τ α) : Parser τ α := fun s =>
  match p s with
  | .failed => q s
  | result => result

def expect (p : Parser τ α) : Parser τ α := fun s =>
  match p s with
  | .failed => .thrown
  | result => result

def optional (p : Parser τ α) : Parser τ (Option α) := (p.map some).orElse (pure none)

def manyWithin (p : Parser τ α) : Nat → Parser τ (List α)
  | 0 => fun _ => .unfinished
  | rounds + 1 => (optional p).bind fun
    | some a => (p.manyWithin rounds).map (a :: ·)
    | none => pure []

def many (p : Parser τ α) : Parser τ (List α) := fun s => p.manyWithin (s.length + 1) s

def sepBy (p : Parser τ α) (separator : Parser τ β) : Parser τ (List α) :=
  p.bind fun first => (separator.bind fun _ => p).many.map (first :: ·)

def chain {γ : Type} (op : Parser τ β) (operand : Parser τ α) (make : α → List (β × α) → γ) : Parser τ γ :=
  operand.bind fun first => (op.bind fun o => operand.expect.map (o, ·)).many.map (make first)

def satisfy (P : τ → Bool) : Parser τ τ
  | t :: rest => if P t then .matched t rest else .failed
  | [] => .failed

def span (P : τ → Bool) : Parser τ (List τ) := fun s => .matched (s.takeWhile P) (s.dropWhile P)

def symbols [BEq τ] : List (List τ × α) → Parser τ α
  | [], _ => .failed
  | (key, a) :: table, s =>
    match symbols table s with
    | .matched b rest =>
      if key.isPrefixOf s ∧ s.length < key.length + rest.length then .matched a (s.drop key.length) else .matched b rest
    | result => if key.isPrefixOf s then .matched a (s.drop key.length) else result

def skipping (blank : τ → Bool) (p : Parser τ α) : Parser τ α := fun s => p (s.dropWhile blank)

/-- A rule whose inner parser is the rule itself, to a depth of fewer than `depth` uses. -/
def nested (rule : Parser τ α → Parser τ α) : Nat → Parser τ α
  | 0 => fun _ => .unfinished
  | depth + 1 => rule (nested rule depth)

/-- A rule, as deep as the input is long. A match leaves the input from the next token that is no blank. -/
def phrase (blank : τ → Bool) (rule : Parser τ α → Parser τ α) : Parser τ α := fun s =>
  match nested rule (s.length + 1) s with
  | .matched a rest => .matched a (rest.dropWhile blank)
  | result => result

end Parser

namespace Parser
variable {p q : Parser τ α} {f : α → Parser τ β} {s rest : List τ} {a : α} {b : β}

theorem bind_of_matched {between : List τ} (first : p s = .matched a between) : p.bind f s = f a between := by
  unfold bind
  rw [first]

theorem bind_of_failed (first : p s = .failed) : p.bind f s = .failed := by
  unfold bind
  rw [first]

theorem bind_eq_matched :
    p.bind f s = .matched b rest ↔ ∃ a between, p s = .matched a between ∧ f a between = .matched b rest := by
  unfold bind
  cases p s with
  | matched a between =>
    constructor
    · intro later
      exact ⟨a, between, rfl, later⟩
    · rintro ⟨_, _, ⟨⟩, later⟩
      exact later
  | _ => simp

theorem bind_eq_failed :
    p.bind f s = .failed ↔ p s = .failed ∨ ∃ a between, p s = .matched a between ∧ f a between = .failed := by
  unfold bind
  cases p s with
  | matched a between =>
    constructor
    · intro later
      exact .inr ⟨a, between, rfl, later⟩
    · rintro (⟨⟨⟩⟩ | ⟨_, _, ⟨⟩, later⟩)
      exact later
  | _ => simp

theorem map_of_matched {g : α → β} (first : p s = .matched a rest) : p.map g s = .matched (g a) rest :=
  bind_of_matched first

theorem map_eq_matched {g : α → β} : p.map g s = .matched b rest ↔ ∃ a, p s = .matched a rest ∧ g a = b := by
  constructor
  · intro here
    obtain ⟨a, between, first, later⟩ := bind_eq_matched.mp here
    cases later
    exact ⟨a, first, rfl⟩
  · rintro ⟨a, first, rfl⟩
    exact map_of_matched first

theorem orElse_of_matched (first : p s = .matched a rest) : p.orElse q s = .matched a rest := by
  unfold orElse
  rw [first]

theorem orElse_of_failed (first : p s = .failed) : p.orElse q s = q s := by
  unfold orElse
  rw [first]

theorem orElse_eq_matched :
    p.orElse q s = .matched a rest ↔ p s = .matched a rest ∨ p s = .failed ∧ q s = .matched a rest := by
  unfold orElse
  cases p s <;> simp

theorem orElse_eq_failed : p.orElse q s = .failed ↔ p s = .failed ∧ q s = .failed := by
  unfold orElse
  cases p s <;> simp

@[simp]
theorem expect_eq_matched : p.expect s = .matched a rest ↔ p s = .matched a rest := by
  unfold expect
  cases p s <;> simp

theorem expect_ne_failed : p.expect s ≠ .failed := by
  unfold expect
  cases p s <;> simp

theorem map_eq_failed {g : α → β} (none : p.map g s = .failed) : p s = .failed := by
  rcases bind_eq_failed.mp none with none | ⟨_, _, _, none⟩
  · exact none
  · cases none

theorem optional_of_matched (first : p s = .matched a rest) : p.optional s = .matched (some a) rest :=
  orElse_of_matched (map_of_matched first)

theorem optional_of_failed (first : p s = .failed) : p.optional s = .matched none s :=
  orElse_of_failed (bind_of_failed first)

theorem optional_eq_matched {o : Option α} :
    p.optional s = .matched o rest ↔ (∃ a, o = some a ∧ p s = .matched a rest) ∨ o = none ∧ p s = .failed ∧ rest = s := by
  constructor
  · intro here
    rcases orElse_eq_matched.mp here with here | ⟨none, here⟩
    · obtain ⟨a, first, rfl⟩ := map_eq_matched.mp here
      exact .inl ⟨a, rfl, first⟩
    · cases here
      rcases bind_eq_failed.mp none with none | ⟨_, _, _, ⟨⟩⟩
      exact .inr ⟨rfl, none, rfl⟩
  · rintro (⟨a, rfl, here⟩ | ⟨rfl, none, rfl⟩)
    · exact optional_of_matched here
    · exact optional_of_failed none

theorem optional_ne_failed : p.optional s ≠ .failed := fun none => nomatch (orElse_eq_failed.mp none).2

theorem manyWithin_of_failed {as : List α} {rounds : Nat} (none : p s = .failed)
    (here : p.manyWithin rounds s = .matched as rest) : rest = s := by
  cases rounds with
  | zero => cases here
  | succ rounds =>
    unfold manyWithin at here
    rw [bind_of_matched (optional_of_failed none)] at here
    cases here
    rfl

theorem manyWithin_ne_failed (rounds : Nat) : p.manyWithin rounds s ≠ .failed := by
  induction rounds generalizing s with
  | zero => exact fun none => nomatch none
  | succ rounds ih =>
    intro none
    rcases bind_eq_failed.mp none with none | ⟨o, between, -, none⟩
    · exact optional_ne_failed none
    · cases o with
      | none => cases none
      | some a => exact ih (map_eq_failed none)

theorem sepBy_eq_failed {separator : Parser τ β} (none : p.sepBy separator s = .failed) : p s = .failed := by
  rcases bind_eq_failed.mp none with none | ⟨_, _, _, none⟩
  · exact none
  · exact absurd (map_eq_failed none) (manyWithin_ne_failed _)

theorem chain_of_two {γ : Type} {op : Parser τ β} {make : α → List (β × α) → γ} {between after : List τ} {second : α}
    (first : p s = .matched a between) (some : between ≠ []) (operator : op between = .matched b after)
    (next : p after = .matched second rest) (last : op rest = .failed) : chain op p make s = .matched (make a [(b, second)]) rest := by
  have step : (op.bind fun o => p.expect.map (o, ·)) between = .matched (b, second) rest :=
    (bind_of_matched operator).trans (map_of_matched (expect_eq_matched.mpr next))
  have stop : (op.bind fun o => p.expect.map (o, ·)) rest = .failed := bind_of_failed last
  obtain ⟨t, between, rfl⟩ := exists_cons_of_ne_nil some
  refine (bind_of_matched first).trans (map_of_matched ?_)
  refine (bind_of_matched (optional_of_matched step)).trans (map_of_matched ?_)
  exact bind_of_matched (optional_of_failed stop)

theorem symbols_of_head [BEq τ] [LawfulBEq τ] {table : List (List τ × α)} {t : τ}
    (other : ∀ entry ∈ table, entry.1 ≠ [] ∧ entry.1.head? ≠ some t) : symbols table (t :: rest) = .failed := by
  induction table with
  | nil => rfl
  | cons entry table ih =>
    obtain ⟨key, a⟩ := entry
    have none := ih fun entry member => other entry (mem_cons_of_mem _ member)
    obtain ⟨proper, head⟩ := other (key, a) mem_cons_self
    have differs : ¬ key.isPrefixOf (t :: rest) = true := by
      cases key with
      | nil => exact absurd rfl proper
      | cons u key =>
        intro here
        obtain ⟨_, same⟩ := isPrefixOf_iff_prefix.mp here
        exact head (congrArg some (cons.inj same).1)
    simp only [symbols, none, differs]
    rfl

end Parser

/-- The parse ends, and a match leaves fewer than `n` tokens. -/
def Result.Below (n : Nat) : Result τ α → Prop
  | matched _ rest => rest.length < n
  | failed | thrown => True
  | unfinished => False

theorem Result.Below.mono {r : Result τ α} {n k : Nat} (below : r.Below n) (le : n ≤ k) : r.Below k := by
  cases r with
  | matched a rest => exact Nat.lt_of_lt_of_le below le
  | failed | thrown => trivial
  | unfinished => exact below

namespace Parser
variable {p q : Parser τ α} {f : α → Parser τ β} {s : List τ} {n k : Nat}

theorem below_bind (first : (p s).Below k) (later : ∀ a rest, rest.length < k → (f a rest).Below n) :
    (p.bind f s).Below n := by
  unfold bind
  cases here : p s with
  | matched a rest =>
    rw [here] at first
    exact later a rest first
  | failed | thrown => trivial
  | unfinished => rwa [here] at first

def Shrinks (n : Nat) (p : Parser τ α) : Prop := ∀ s, s.length < n → (p s).Below s.length

def Ends (n : Nat) (p : Parser τ α) : Prop := ∀ s, s.length < n → (p s).Below (s.length + 1)

theorem Shrinks.ends (shrinks : p.Shrinks n) : p.Ends n := fun s room => (shrinks s room).mono (le_succ _)

theorem Shrinks.mono (shrinks : p.Shrinks n) (le : k ≤ n) : p.Shrinks k := fun s room =>
  shrinks s (Nat.lt_of_lt_of_le room le)

theorem Shrinks.bind (first : p.Shrinks n) (later : ∀ a, (f a).Ends (n - 1)) : (p.bind f).Shrinks n := by
  intro s room
  refine below_bind (first s room) fun a rest fewer => ?_
  exact (later a rest (by omega)).mono (by omega)

theorem Ends.bind (first : p.Ends n) (later : ∀ a, (f a).Ends n) : (p.bind f).Ends n := by
  intro s room
  refine below_bind (first s room) fun a rest fewer => ?_
  exact (later a rest (by omega)).mono (by omega)

theorem ends_pure (a : α) : (pure a : Parser τ α).Ends n := fun s _ => lt_succ_self s.length

theorem Shrinks.map {g : α → β} (first : p.Shrinks n) : (p.map g).Shrinks n := fun s room =>
  below_bind (first s room) fun _ _ fewer => fewer

theorem Ends.map {g : α → β} (first : p.Ends n) : (p.map g).Ends n := first.bind fun a => ends_pure (g a)

theorem below_orElse (first : (p s).Below n) (second : (q s).Below n) : (p.orElse q s).Below n := by
  unfold orElse
  cases here : p s with
  | failed => exact second
  | _ => rwa [here] at first

theorem Shrinks.orElse (first : p.Shrinks n) (second : q.Shrinks n) : (p.orElse q).Shrinks n := fun s room =>
  below_orElse (first s room) (second s room)

theorem below_expect (here : (p s).Below n) : (p.expect s).Below n := by
  unfold expect
  cases result : p s with
  | failed => trivial
  | _ => rwa [result] at here

theorem Shrinks.expect (shrinks : p.Shrinks n) : p.expect.Shrinks n := fun s room => below_expect (shrinks s room)

theorem Shrinks.optional (shrinks : p.Shrinks n) : p.optional.Ends n := fun s room =>
  below_orElse (shrinks.map.ends s room) (lt_succ_self _)

theorem Shrinks.manyWithin (shrinks : p.Shrinks n) (rounds : Nat) (enough : s.length < rounds) (room : s.length < n) :
    (p.manyWithin rounds s).Below (s.length + 1) := by
  induction rounds generalizing s with
  | zero => cases enough
  | succ rounds ih =>
    have fewer := shrinks s room
    unfold Parser.manyWithin
    cases here : p s with
    | matched a rest =>
      rw [here] at fewer
      rw [bind_of_matched (optional_of_matched here)]
      have shorter : rest.length < s.length := fewer
      refine below_bind (ih (by omega) (by omega)) fun _ rest' fewer' => ?_
      exact Nat.lt_of_lt_of_le fewer' (by omega)
    | failed =>
      rw [bind_of_matched (optional_of_failed here)]
      exact lt_succ_self _
    | thrown =>
      simp only [Parser.bind, Parser.optional, Parser.orElse, Parser.map, here]
      trivial
    | unfinished =>
      rw [here] at fewer
      exact fewer.elim

theorem Shrinks.many (shrinks : p.Shrinks n) : p.many.Ends n := fun s room =>
  shrinks.manyWithin _ (lt_succ_self s.length) room

theorem Shrinks.skipping {blank : τ → Bool} (shrinks : p.Shrinks n) : (p.skipping blank).Shrinks n := by
  intro s room
  have fewer : (s.dropWhile blank).length ≤ s.length := (dropWhile_suffix blank).length_le
  exact (shrinks _ (by omega)).mono fewer

theorem shrinks_satisfy (P : τ → Bool) : (satisfy P).Shrinks n := by
  intro s _
  cases s with
  | nil => trivial
  | cons t rest =>
    rw [satisfy]
    split
    · exact lt_succ_self _
    · trivial

theorem ends_span (P : τ → Bool) : (span P).Ends n := fun _ _ =>
  lt_succ_of_le (dropWhile_suffix P).length_le

theorem shrinks_symbols [BEq τ] [LawfulBEq τ] {table : List (List τ × α)} (proper : ∀ entry ∈ table, entry.1 ≠ []) :
    (symbols table).Shrinks n := by
  intro s room
  induction table with
  | nil => trivial
  | cons entry table ih =>
    obtain ⟨key, a⟩ := entry
    have shorter := ih fun entry member => proper entry (mem_cons_of_mem _ member)
    have positive : 0 < key.length := length_pos_iff.mpr (proper _ mem_cons_self)
    have drops (here : key.isPrefixOf s = true) : (Result.matched a (s.drop key.length)).Below s.length := by
      have leads : key <+: s := isPrefixOf_iff_prefix.mp here
      have le := leads.length_le
      show (s.drop key.length).length < s.length
      rw [length_drop]
      omega
    unfold symbols
    split
    · rename_i here
      split
      · rename_i taken
        exact drops taken.1
      · rwa [← here]
    · split
      · rename_i here
        exact drops here
      · exact shorter

end Parser

/-! ### Two parsers

What one parser matches, another matches too, but that it may go on where the first one stops. -/

/-- `q` matches what `p` matches, for results of a kind, unless `p` stops at a place of a kind. -/
def Parser.Follows (good : α → Prop) (stop : List τ → Prop) (p q : Parser τ α) : Prop :=
  ∀ s a rest, p s = .matched a rest → good a → q s = .matched a rest ∨ stop rest

namespace Parser.Follows
variable {good : α → Prop} {good' : β → Prop} {stop : List τ → Prop} {p q : Parser τ α}

theorem refl (p : Parser τ α) : Follows good stop p p := fun _ _ _ here _ => .inl here

theorem map {g : α → β} (follows : Follows good stop p q) (kept : ∀ a, good' (g a) → good a) :
    Follows good' stop (p.map g) (q.map g) := by
  intro s b rest here fine
  obtain ⟨a, first, rfl⟩ := map_eq_matched.mp here
  rcases follows s a rest first (kept a fine) with there | stops
  · exact .inl (map_of_matched there)
  · exact .inr stops

theorem expect (follows : Follows good stop p q) : Follows good stop p.expect q.expect := by
  intro s a rest here fine
  rcases follows s a rest (expect_eq_matched.mp here) fine with there | stops
  · exact .inl (expect_eq_matched.mpr there)
  · exact .inr stops

theorem bind {f g : α → Parser τ β} (first : Follows good stop p q) (later : ∀ a, Follows good' stop (f a) (g a))
    (kept : ∀ a s b rest, f a s = .matched b rest → good' b → good a)
    (halts : ∀ a s b rest, stop s → f a s = .matched b rest → stop rest) : Follows good' stop (p.bind f) (q.bind g) := by
  intro s b rest here fine
  obtain ⟨a, between, before, after⟩ := bind_eq_matched.mp here
  rcases first s a between before (kept a between b rest after fine) with there | stops
  · rw [bind_of_matched there]
    exact later a between b rest after fine
  · exact .inr (halts a between b rest stops after)

theorem optional (follows : Follows good stop p q) (fails : ∀ s, p s = .failed → q s = .failed ∨ stop s) :
    Follows (fun o => ∀ a, o = some a → good a) stop p.optional q.optional := by
  intro s o rest here fine
  rcases optional_eq_matched.mp here with ⟨a, rfl, first⟩ | ⟨rfl, none, rfl⟩
  · rcases follows s a rest first (fine a rfl) with there | stops
    · exact .inl (optional_of_matched there)
    · exact .inr stops
  · rcases fails _ none with none | stops
    · exact .inl (optional_of_failed none)
    · exact .inr stops

theorem manyWithin (follows : Follows good stop p q) (fails : ∀ s, p s = .failed → q s = .failed ∨ stop s)
    (halts : ∀ s, stop s → p s = .failed) (rounds : Nat) :
    Follows (fun as => ∀ a ∈ as, good a) stop (p.manyWithin rounds) (q.manyWithin rounds) := by
  induction rounds with
  | zero => intro s as rest here; cases here
  | succ rounds ih =>
    refine bind (optional follows fails) (fun o => ?_) ?_ ?_
    · cases o with
      | none => exact refl _
      | some a => exact ih.map fun as fine b member => fine b (mem_cons_of_mem _ member)
    · rintro o s as rest here fine a rfl
      obtain ⟨as, -, rfl⟩ := map_eq_matched.mp here
      exact fine a mem_cons_self
    · intro o s as rest stops here
      cases o with
      | none =>
        cases here
        exact stops
      | some a =>
        obtain ⟨as, here, -⟩ := map_eq_matched.mp here
        rwa [manyWithin_of_failed (halts s stops) here]

theorem many (follows : Follows good stop p q) (fails : ∀ s, p s = .failed → q s = .failed ∨ stop s)
    (halts : ∀ s, stop s → p s = .failed) : Follows (fun as => ∀ a ∈ as, good a) stop p.many q.many := fun s =>
  manyWithin follows fails halts (s.length + 1) s

end Parser.Follows

namespace Parser
variable {p : Parser τ α} {n : Nat}

theorem Shrinks.sepBy {separator : Parser τ β} (first : p.Shrinks n) (between : separator.Shrinks n) :
    (p.sepBy separator).Shrinks n := by
  refine first.bind fun _ => Ends.map (Shrinks.many (Shrinks.mono ?_ (sub_le n 1)))
  exact between.bind fun _ => (first.mono (sub_le n 1)).ends

theorem Shrinks.chain {γ : Type} {op : Parser τ β} {make : α → List (β × α) → γ} (ops : op.Shrinks n) (operands : p.Shrinks n) :
    (chain op p make).Shrinks n := by
  refine operands.bind fun _ => Ends.map (Shrinks.many (Shrinks.mono ?_ (sub_le n 1)))
  exact ops.bind fun _ => (operands.mono (sub_le n 1)).expect.map.ends

theorem Shrinks.nested {rule : Parser τ α → Parser τ α} (step : ∀ {e n}, Shrinks n e → (rule e).Shrinks (n + 1)) (depth : Nat) :
    (nested rule depth).Shrinks depth := by
  induction depth with
  | zero => exact fun _ none => absurd none (not_lt_zero _)
  | succ depth ih => exact step ih

theorem phrase_ne_unfinished {blank : τ → Bool} {rule : Parser τ α → Parser τ α}
    (step : ∀ {e n}, Shrinks n e → (rule e).Shrinks (n + 1)) (s : List τ) : phrase blank rule s ≠ .unfinished := by
  have ends := Shrinks.nested step (s.length + 1) s (lt_succ_self _)
  unfold phrase
  split
  · intro none
    cases none
  · rintro here
    rw [here] at ends
    exact ends

end Parser

end Myctk.Lib.Peg
