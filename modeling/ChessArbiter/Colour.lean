/-!
# The two sides

`Colour` names the sides and `Sides α` keeps one value for each of them. `Sides.get` and
`Sides.modify` behave like a two-entry table: reading the side just written gives the new value,
and the other side is left alone.
-/

namespace ChessArbiter

inductive Colour where
  | white
  | black
deriving DecidableEq

namespace Colour

def opposite : Colour → Colour
  | white => black
  | black => white

def label : Colour → String
  | white => "White"
  | black => "Black"

@[simp] theorem opposite_opposite (c : Colour) : c.opposite.opposite = c := by cases c <;> rfl

@[simp] theorem opposite_ne (c : Colour) : c.opposite ≠ c := by cases c <;> nofun

@[simp] theorem ne_opposite (c : Colour) : c ≠ c.opposite := by cases c <;> nofun

theorem eq_opposite_of_ne {c d : Colour} (h : d ≠ c) : d = c.opposite := by
  cases c <;> cases d <;> simp_all [opposite]

end Colour

structure Sides (α : Type) where
  white : α
  black : α
deriving DecidableEq

namespace Sides

variable {α β : Type}

def get (s : Sides α) : Colour → α
  | .white => s.white
  | .black => s.black

def modify (s : Sides α) (c : Colour) (f : α → α) : Sides α :=
  match c with
  | .white => { s with white := f s.white }
  | .black => { s with black := f s.black }

def both (a : α) : Sides α := ⟨a, a⟩

@[simp] theorem get_both (a : α) (c : Colour) : (both a).get c = a := by cases c <;> rfl

theorem get_modify_of_ne (s : Sides α) {c d : Colour} (f : α → α) (h : d ≠ c) :
    (s.modify c f).get d = s.get d := by
  cases c <;> cases d <;> simp_all [get, modify]

theorem get_modify (s : Sides α) (c d : Colour) (f : α → α) :
    (s.modify c f).get d = if d = c then f (s.get d) else s.get d := by
  cases c <;> cases d <;> rfl

theorem ext_get {s t : Sides α} (h : ∀ c, s.get c = t.get c) : s = t := by
  cases s; cases t
  have hw := h .white
  have hb := h .black
  simp only [get] at hw hb
  rw [hw, hb]

end Sides

end ChessArbiter
