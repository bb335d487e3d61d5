import Chip8.Word

/-!
# The call stack

Sixteen slots and a depth. A call moves the depth up and writes there, so slot 0 is never used and
fifteen addresses fit; a return reads and moves down, and leaves the slot as it is. `live` is the
list of addresses that count, the newest first; `live_of_push?` and `live_of_pop?` say that the
slots behave as that list.
-/
namespace Chip8

/-- The addresses that calls have left behind; only the slots 1 to `depth` count. -/
structure CallStack where
  slots : Vector Word 16
  depth : Fin 16
  deriving DecidableEq, Repr

namespace CallStack

def empty : CallStack := ⟨Vector.replicate 16 0, 0⟩

/-- The contents of the slots `top` down to 1. -/
def downFrom (slots : Vector Word 16) : Nat → List Word
  | 0 => []
  | top + 1 => slots[top + 1]?.getD 0 :: downFrom slots top

/-- The addresses of the calls that have not returned, the newest first. -/
def live (s : CallStack) : List Word := downFrom s.slots s.depth

/-- Notes one more call, unless every usable slot is taken. -/
def push? (s : CallStack) (addr : Word) : Option CallStack :=
  if h : s.depth.val + 1 < 16 then some ⟨s.slots.set (s.depth + 1) addr, ⟨s.depth + 1, h⟩⟩
  else none

/-- The address of the newest call, and the stack without it. -/
def pop? (s : CallStack) : Option (Word × CallStack) :=
  if s.depth.val = 0 then none
  else some (s.slots[s.depth], ⟨s.slots, ⟨s.depth - 1, by omega⟩⟩)

theorem downFrom_set (slots : Vector Word 16) (addr : Word) {top slot : Nat} (hs : slot < 16)
    (h : top < slot) : downFrom (slots.set slot addr) top = downFrom slots top := by
  induction top with
  | zero => rfl
  | succ top ih =>
    have hne : slot ≠ top + 1 := by omega
    rw [downFrom, downFrom, ih (by omega), Vector.getElem?_set_ne hs hne]

theorem length_downFrom (slots : Vector Word 16) (top : Nat) :
    (downFrom slots top).length = top := by
  induction top with
  | zero => rfl
  | succ top ih => rw [downFrom, List.length_cons, ih]

@[simp] theorem live_empty : empty.live = [] := rfl

theorem length_live (s : CallStack) : s.live.length = s.depth.val := length_downFrom _ _

theorem live_of_push? {s t : CallStack} {addr : Word} (h : s.push? addr = some t) :
    t.live = addr :: s.live := by
  unfold push? at h
  split at h
  · next hd =>
    obtain rfl := Option.some.inj h
    simp only [live, downFrom, downFrom_set s.slots addr hd (Nat.lt_succ_self _)]
    simp
  · contradiction

theorem live_of_pop? {s t : CallStack} {addr : Word} (h : s.pop? = some (addr, t)) :
    s.live = addr :: t.live := by
  unfold pop? at h
  split at h
  · contradiction
  · next hd =>
    obtain ⟨rfl, rfl⟩ := Prod.mk.inj (Option.some.inj h)
    have hs : s.depth.val = s.depth.val - 1 + 1 := by omega
    have hlt := s.depth.isLt
    simp only [live]
    rw [hs, downFrom, ← hs]
    simp

theorem push?_eq_none_iff (s : CallStack) (addr : Word) :
    s.push? addr = none ↔ s.live.length = 15 := by
  rw [length_live]
  have := s.depth.isLt
  unfold push?
  split <;> simp <;> omega

theorem pop?_eq_none_iff (s : CallStack) : s.pop? = none ↔ s.live = [] := by
  rw [← List.length_eq_zero_iff, length_live]
  unfold pop?
  split <;> simp_all

end CallStack
end Chip8
