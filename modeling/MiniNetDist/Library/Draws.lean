import Mathlib.Data.List.Basic

/-! Programs that draw random numbers: what a program does whatever it draws, and what it may do for some
draws. -/

namespace MiniNetDist.Library

universe u v

/-- A program that takes its random numbers from the front of a list; past its end they are 0. -/
def Draws (α : Type u) := List Nat → α × List Nat

variable {α β : Type u} {ι : Type v}

instance : Monad Draws where
  pure a := fun numbers => (a, numbers)
  bind program next := fun numbers => next (program numbers).1 (program numbers).2

def draw : Draws Nat
  | [] => (0, [])
  | number :: rest => (number, rest)

/-- Whatever is drawn, the result satisfies the condition. -/
def Must (program : Draws α) (post : α → Prop) : Prop := ∀ numbers, post (program numbers).1

/-- After some draws, whatever follows them, the result satisfies the condition. -/
def May (program : Draws α) (post : α → Prop) : Prop :=
  ∃ drawn result, post result ∧ ∀ rest, program (drawn ++ rest) = (result, rest)

section Must

variable {program : Draws α} {next : α → Draws β} {post weaker : α → Prop} {final : β → Prop}

theorem must_pure {a : α} (holds : post a) : Must (pure a : Draws α) post := fun _ => holds

theorem Must.bind (first : Must program post) (onward : ∀ a, post a → Must (next a) final) :
    Must (program >>= next) final := fun numbers => onward _ (first numbers) _

theorem Must.mono (must : Must program post) (weaken : ∀ a, post a → weaker a) : Must program weaker :=
  fun numbers => weaken _ (must numbers)

/-- A loop keeps what each of its steps keeps; the invariant may speak of the items still to come. -/
theorem must_foldlM (step : β → ι → Draws β) (items : List ι) (invariant : List ι → β → Prop)
    (keeps : ∀ passed item rest b, items = passed ++ item :: rest → invariant (item :: rest) b →
      Must (step b item) (invariant rest)) {b : β} (start : invariant items b) :
    Must (items.foldlM step b) (invariant []) := by
  induction items generalizing b with
  | nil => exact must_pure start
  | cons item rest ih =>
    have first : Must (step b item) (invariant rest) := keeps [] item rest b rfl start
    refine first.bind fun b' held => ih (fun passed other others b'' split => ?_) held
    exact keeps (item :: passed) other others b'' (congrArg (item :: ·) split)

end Must

section May

variable {program : Draws α} {next : α → Draws β} {post weaker : α → Prop} {final : β → Prop}

theorem may_pure {a : α} (holds : post a) : May (pure a : Draws α) post := ⟨[], a, holds, fun _ => rfl⟩

theorem may_draw (number : Nat) : May draw (· = number) := ⟨[number], number, rfl, fun _ => rfl⟩

theorem May.bind (first : May program post) (onward : ∀ a, post a → May (next a) final) :
    May (program >>= next) final := by
  obtain ⟨drawn, a, holds, runs⟩ := first
  obtain ⟨further, b, finally', continues⟩ := onward a holds
  refine ⟨drawn ++ further, b, finally', fun rest => ?_⟩
  calc (program >>= next) (drawn ++ further ++ rest)
      = next (program (drawn ++ (further ++ rest))).1 (program (drawn ++ (further ++ rest))).2 := by
        rw [List.append_assoc]
        rfl
    _ = next a (further ++ rest) := by rw [runs]
    _ = (b, rest) := continues rest

theorem May.mono (may : May program post) (weaken : ∀ a, post a → weaker a) : May program weaker := by
  obtain ⟨drawn, a, holds, runs⟩ := may
  exact ⟨drawn, a, weaken a holds, runs⟩

theorem May.exists (may : May program post) : ∃ numbers, post (program numbers).1 := by
  obtain ⟨drawn, a, holds, runs⟩ := may
  exact ⟨drawn ++ [], (runs []).symm ▸ holds⟩

theorem may_foldlM (step : β → ι → Draws β) (items : List ι) (invariant : List ι → β → Prop)
    (keeps : ∀ passed item rest b, items = passed ++ item :: rest → invariant (item :: rest) b →
      May (step b item) (invariant rest)) {b : β} (start : invariant items b) :
    May (items.foldlM step b) (invariant []) := by
  induction items generalizing b with
  | nil => exact may_pure start
  | cons item rest ih =>
    have first : May (step b item) (invariant rest) := keeps [] item rest b rfl start
    refine first.bind fun b' held => ih (fun passed other others b'' split => ?_) held
    exact keeps (item :: passed) other others b'' (congrArg (item :: ·) split)

end May

end MiniNetDist.Library
