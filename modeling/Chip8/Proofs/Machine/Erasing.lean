import Chip8.Proofs.Frame.Redrawing
import Chip8.Proofs.Machine.Footprint

/-!
# Drawing twice

A draw takes its sprite from the index and its place from two registers, and changes neither unless
one of the two is VF. So the same draw comes to the same cells again, and inverts them back. Its two
flags tell what the cells were like before: the first that some were lit, the second that some were
dark. What the frame looks like in between is said with the frame.
-/
namespace Chip8

namespace Sprite

/-- A row of a sprite is not zero just if one of its bits is set. -/
theorem row_ne_zero_iff (byte : UInt8) :
    byte ≠ 0 ↔ ∃ column < 8, byte.toNat.testBit (7 - column) = true := by
  constructor
  · intro hne
    have hnat : byte.toNat ≠ 0 := fun h => hne (UInt8.toNat.inj h)
    obtain ⟨k, hk⟩ := Nat.exists_testBit_of_ne_zero hnat
    have hlt : k < 8 := by
      by_contra hge
      have hbound : byte.toNat < 2 ^ k :=
        Nat.lt_of_lt_of_le byte.toNat_lt (Nat.pow_le_pow_right (by decide) (Nat.not_lt.mp hge))
      rw [Nat.testBit_lt_two_pow hbound] at hk
      contradiction
    refine ⟨7 - k, by omega, ?_⟩
    have hback : 7 - (7 - k) = k := by omega
    rwa [hback]
  · rintro ⟨column, -, hbit⟩ rfl
    rw [UInt8.toNat_zero, Nat.zero_testBit] at hbit
    contradiction

/-- A sprite covers some cell just if one of the rows that count is not empty. -/
theorem exists_covers_iff (sprite : Sprite) (x y : UInt8) :
    (∃ c, sprite.Covers x y c) ↔ ∃ row < min sprite.length 15, sprite.getD row 0 ≠ 0 := by
  constructor
  · rintro ⟨c, row, hrow, column, hcolumn, hbit, -⟩
    exact ⟨row, hrow, (row_ne_zero_iff _).mpr ⟨column, hcolumn, hbit⟩⟩
  · rintro ⟨row, hrow, hne⟩
    obtain ⟨column, hcolumn, hbit⟩ := (row_ne_zero_iff _).mp hne
    exact ⟨cell x y column row, row, hrow, column, hcolumn, hbit, column_row_cell x y column row⟩

end Sprite

theorem Arithmetic.flagByte_eq_one_iff (flag : Bool) : flagByte flag = 1 ↔ flag = true := by
  cases flag <;> decide

namespace Machine

/-- The byte `row` places behind the index. -/
def spriteRow (m : Machine) (row : Nat) : UInt8 := (m.memory[m.index.toNat + row]?).getD 0

/-- Of the `n` bytes at the index, of which no more than fifteen count, a set bit comes to lie on
this cell when they are drawn at Vx, Vy. Its column and its row wrap round. -/
def Addresses (m : Machine) (x y : Register) (n : UInt8) (c : Cell) : Prop :=
  ∃ row < min n.toNat 15, ∃ column < 8, (m.spriteRow row).toNat.testBit (7 - column) = true ∧
    c.column.val = ((m.reg x).toNat + column) % 64 ∧ c.row.val = ((m.reg y).toNat + row) % 32

variable {supply : Supply} {m : Machine} {x y : Register} {n : UInt8} {c : Cell}

theorem length_bytesAtIndex (hfits : m.index.toNat + n.toNat ≤ 4096) :
    (m.bytesAtIndex n.toNat).length = n.toNat := by
  rw [bytesAtIndex_of_fits hfits, Memory.length_read]

theorem getD_bytesAtIndex (hfits : m.index.toNat + n.toNat ≤ 4096) {row : Nat}
    (hrow : row < n.toNat) : (m.bytesAtIndex n.toNat).getD row 0 = m.spriteRow row := by
  rw [bytesAtIndex_of_fits hfits, List.getD_eq_getElem?_getD, Memory.getElem?_read, if_pos hrow,
    spriteRow]

theorem covers_bytesAtIndex_iff (hfits : m.index.toNat + n.toNat ≤ 4096) :
    Sprite.Covers (m.bytesAtIndex n.toNat) (m.reg x) (m.reg y) c ↔ m.Addresses x y n c := by
  unfold Sprite.Covers Addresses
  rw [length_bytesAtIndex hfits]
  refine exists_congr fun row => and_congr_right fun hrow => ?_
  rw [getD_bytesAtIndex hfits (Nat.lt_of_lt_of_le hrow (Nat.min_le_left _ _))]

theorem exists_addresses_iff (hfits : m.index.toNat + n.toNat ≤ 4096) :
    (∃ c, m.Addresses x y n c) ↔ ∃ row < min n.toNat 15, m.spriteRow row ≠ 0 := by
  simp only [← covers_bytesAtIndex_iff hfits]
  rw [Sprite.exists_covers_iff, length_bytesAtIndex hfits]
  refine exists_congr fun row => and_congr_right fun hrow => ?_
  rw [getD_bytesAtIndex hfits (Nat.lt_of_lt_of_le hrow (Nat.min_le_left _ _))]

theorem flag_next_draw (supply : Supply) (m : Machine) (x y : Register) (n : UInt8) :
    (m.next supply (.draw x y n)).reg 0xF = 1 ↔ (m.drawn x y n).2 = true := by
  have hflag : (m.next supply (.draw x y n)).reg 0xF = Arithmetic.flagByte (m.drawn x y n).2 :=
    reg_setReg_self m 0xF _
  rw [hflag, Arithmetic.flagByte_eq_one_iff]

theorem reg_next_draw (supply : Supply) {z : Register} (hz : z ≠ 0xF) :
    (m.next supply (.draw x y n)).reg z = m.reg z :=
  reg_next_of_not_target (fun hmem => hz (List.mem_singleton.mp hmem))

/-- A draw that does not take its place from VF finds sprite and place as the draw before it did. -/
theorem drawn_next_draw (supply : Supply) (hx : x ≠ 0xF) (hy : y ≠ 0xF) :
    (m.next supply (.draw x y n)).drawn x y n =
      (m.drawn x y n).1.draw (m.bytesAtIndex n.toNat) (m.reg x) (m.reg y) := by
  rw [drawn, reg_next_draw supply hx, reg_next_draw supply hy]
  rfl

/-- What a draw and the same draw once more leave: `first` is the machine in between. -/
structure ErasedAgain (m first second : Machine) (x y : Register) (n : UInt8) : Prop where
  frame : second.frame = m.frame
  registers : ∀ z, z ≠ 0xF → second.reg z = m.reg z
  /-- All that is different are VF, the program counter and the requests to show the frame. -/
  rest : second = { m with
    registers := second.registers, pc := m.pc + 4, pendingRedraws := second.pendingRedraws }
  firstFlag : first.reg 0xF = 1 ↔ ∃ c, m.Addresses x y n c ∧ m.frame.lit c = true
  secondFlag : second.reg 0xF = 1 ↔ ∃ c, m.Addresses x y n c ∧ m.frame.lit c = false
  eitherFlag : first.reg 0xF = 1 ∨ second.reg 0xF = 1 ↔
    ∃ row < min n.toNat 15, m.spriteRow row ≠ 0
  /-- Each draw asks once, and no more than five requests wait. -/
  requests : m.pendingRedraws ≤ 5 → second.pendingRedraws = min (m.pendingRedraws + 2) 5

theorem frame_next_draw_twice (supply : Supply) (hx : x ≠ 0xF) (hy : y ≠ 0xF) :
    ((m.next supply (.draw x y n)).next supply (.draw x y n)).frame = m.frame := by
  show ((m.next supply (.draw x y n)).drawn x y n).1 = m.frame
  rw [drawn_next_draw supply hx hy]
  exact Frame.frame_draw_twice _ _ _ _

theorem pc_next_draw_twice (supply : Supply) (m : Machine) (x y : Register) (n : UInt8) :
    ((m.next supply (.draw x y n)).next supply (.draw x y n)).pc = m.pc + 4 := by
  show m.pc + 2 + 2 = m.pc + 4
  rw [UInt16.add_assoc]
  rfl

theorem pendingRedraws_next_draw (supply : Supply) (h : m.pendingRedraws ≤ 5) :
    (m.next supply (.draw x y n)).pendingRedraws = min (m.pendingRedraws + 1) 5 := by
  show (if m.pendingRedraws < 5 then m.pendingRedraws + 1 else m.pendingRedraws) = _
  split <;> omega

theorem erasedAgain_next (hfits : m.index.toNat + n.toNat ≤ 4096) (hx : x ≠ 0xF) (hy : y ≠ 0xF) :
    ErasedAgain m (m.next supply (.draw x y n))
      ((m.next supply (.draw x y n)).next supply (.draw x y n)) x y n := by
  have hframe := frame_next_draw_twice (m := m) (n := n) supply hx hy
  have hpc := pc_next_draw_twice supply m x y n
  have hfirst : (m.next supply (.draw x y n)).reg 0xF = 1 ↔
      ∃ c, m.Addresses x y n c ∧ m.frame.lit c = true := by
    rw [flag_next_draw, drawn, Frame.hit_draw]
    simp only [covers_bytesAtIndex_iff hfits]
  have hsecond : ((m.next supply (.draw x y n)).next supply (.draw x y n)).reg 0xF = 1 ↔
      ∃ c, m.Addresses x y n c ∧ m.frame.lit c = false := by
    rw [flag_next_draw, drawn_next_draw supply hx hy, drawn, Frame.hit_draw_twice]
    simp only [covers_bytesAtIndex_iff hfits]
  constructor
  case frame => exact hframe
  case registers =>
    intro z hz
    rw [reg_next_draw supply hz, reg_next_draw supply hz]
  case rest =>
    let second := (m.next supply (.draw x y n)).next supply (.draw x y n)
    calc second
        = { m with
            frame := second.frame, registers := second.registers, pc := second.pc,
            pendingRedraws := second.pendingRedraws } := rfl
      _ = { m with
            registers := second.registers, pc := m.pc + 4,
            pendingRedraws := second.pendingRedraws } := by rw [hframe, hpc]
  case firstFlag => exact hfirst
  case secondFlag => exact hsecond
  case eitherFlag =>
    rw [hfirst, hsecond, ← exists_addresses_iff (x := x) (y := y) hfits, ← exists_or]
    refine exists_congr fun c => ?_
    cases m.frame.lit c <;> simp
  case requests =>
    intro hpending
    have hbetween := pendingRedraws_next_draw (x := x) (y := y) (n := n) supply hpending
    rw [pendingRedraws_next_draw supply (by omega), hbetween]
    omega

/-- A draw that does not take its place from VF and succeeds can be made again, and takes itself
back: all pixels are as they were, and of the rest only VF, the program counter and the requests to
show the frame are different. The first flag says that a cell of the sprite was lit, the second that
one was dark; so one of the two is set unless the sprite is empty. -/
theorem drawing_twice_erases (supply : Supply) (m : Machine) (x y : Register) (n : UInt8)
    (hx : x ≠ 0xF) (hy : y ≠ 0xF) (h : (m.execute supply (.draw x y n)).result = .ok ()) :
    let first := (m.execute supply (.draw x y n)).state
    (first.execute supply (.draw x y n)).result = .ok () ∧
      ErasedAgain m first (first.execute supply (.draw x y n)).state x y n := by
  intro first
  have haccepted := accepted_of_ok h
  have hfits : m.index.toNat + n.toNat ≤ 4096 := fits_of_reach haccepted
  have hfirst : first = m.next supply (.draw x y n) := by
    show (m.execute supply (.draw x y n)).state = _
    rw [execute_eq haccepted]
  have haccepted' : first.refusal? (.draw x y n) = none := by
    rw [hfirst]
    exact haccepted
  rw [execute_eq haccepted', hfirst]
  exact ⟨rfl, erasedAgain_next hfits hx hy⟩

/-- The character 0, drawn twice at the lower right corner, over the first of its own rows. -/
theorem drawing_twice_erases_overlapping :
    let supply : Supply := ⟨fun _ => 0, Supply.heldKey⟩
    let m := { initial with
      frame := (Frame.blank.draw [0xF0] 62 31).1
      registers := Vector.ofFn fun z => if z = 0 then 62 else 31 }
    let first := (m.execute supply (.draw 0 1 5)).state
    (m.execute supply (.draw 0 1 5)).result = .ok () ∧ first.reg 0xF = 1 ∧
      (first.execute supply (.draw 0 1 5)).result = .ok () ∧
      ErasedAgain m first (first.execute supply (.draw 0 1 5)).state 0 1 5 := by
  intro supply m first
  have hok : (m.execute supply (.draw 0 1 5)).result = .ok () := rfl
  have hhit : first.reg 0xF = 1 := by decide +kernel
  exact ⟨hok, hhit, drawing_twice_erases supply m 0 1 5 (by decide) (by decide) hok⟩

end Machine
end Chip8
