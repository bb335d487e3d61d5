import Chip8.Proofs.Machine.Bounds
import Chip8.Proofs.Machine.Strict

/-!
# No limit is ever left

`ofMachine` writes a machine out as plain numbers. As long as a machine is within its bounds, the
machine that watches its limits does what the machine does: it does not stop for good, it answers
the same and it ends in the same numbers. So no access of a run leaves an array and no sum of a run
leaves a word. The increment of the index is left out of that: it is meant to wrap.
-/
namespace Chip8.Strict

/-- A machine in plain numbers. -/
def ofMachine (m : Machine) : Strict where
  memory := m.memory
  registers := m.registers
  index := m.index
  pc := m.pc
  top := UInt8.ofNat m.calls.depth
  slots := m.calls.slots
  delay := m.delay
  sound := m.sound
  pixels := m.frame.cells.map Arithmetic.flagByte
  keypad := m.keypad
  pendingRedraws := m.pendingRedraws
  bytesAsked := m.bytesAsked
  keysAsked := m.keysAsked

theorem ofMachine_initial : ofMachine Machine.initial = initial := by
  simp only [ofMachine, Machine.initial, initial, Frame.blank, CallStack.empty,
    Vector.map_replicate]
  rfl

theorem sum?_of_lt {a b : Word} (h : a.toNat + b.toNat < 65536) : sum? a b = some (a + b) :=
  if_pos h

theorem product?_of_lt {a b : Word} (h : a.toNat * b.toNat < 65536) :
    product? a b = some (a * b) :=
  if_pos h

theorem difference?_of_le {a b : UInt8} (h : b.toNat ≤ a.toNat) :
    difference? a b = some (a - b) :=
  if_pos h

section Arrays

variable {α : Type} {n : Nat}

theorem put?_of_lt (v : Vector α n) {k : Nat} (a : α) (h : k < n) :
    put? v k a = some (v.set k a) :=
  dif_pos h

theorem fill?_of_le (v : Vector α n) {start len : Nat} {given : List α} (h : start + len ≤ n)
    (hl : given.length = len) :
    fill? v start len given = some (Vector.ofFn fun k =>
      if start ≤ k then (given[k.val - start]?).getD v[k] else v[k]) :=
  if_pos ⟨h, hl⟩

end Arrays

theorem slice?_memory (m : Memory) {start len : Nat} (h : start + len ≤ 4096) :
    slice? m start len = some (m.read ⟨start, len, h⟩) := by
  have heq : (m.toList.drop start).take len = m.read ⟨start, len, h⟩ := by
    apply List.ext_getElem?
    intro k
    rw [Memory.getElem?_read, List.getElem?_take, List.getElem?_drop, Vector.getElem?_toList]
  rw [slice?, if_pos h, heq]

theorem fill?_memory (m : Memory) {start len : Nat} {bytes : List UInt8} (h : start + len ≤ 4096)
    (hl : bytes.length = len) : fill? m start len bytes = some (m.write start bytes) := by
  rw [fill?_of_le m h hl]
  apply congrArg some
  apply Vector.ext
  intro a ha
  simp only [Vector.getElem_ofFn, Fin.getElem_fin, Memory.getElem_write]

theorem fill?_registers (m : Machine) {len : Nat} {bytes : List UInt8} (h : len ≤ 16)
    (hl : bytes.length = len) :
    fill? m.registers 0 len bytes = some (m.loadRegs bytes).registers := by
  rw [fill?_of_le m.registers (by omega) hl]
  simp only [Nat.zero_le, if_true, Nat.sub_zero, Machine.loadRegs, Machine.reg]

theorem slice?_registers (m : Machine) (x : Register) :
    slice? m.registers 0 (x + 1) = some (m.regsTo x) := by
  have hx := x.isLt
  rw [slice?, if_pos (by omega), List.drop_zero]
  rfl

variable {m : Machine}

theorem get_ofMachine (m : Machine) (x : Register) : (ofMachine m).get x = some (m.reg x) :=
  Vector.getElem?_eq_getElem x.isLt

theorem set_ofMachine (m : Machine) (x : Register) (byte : UInt8) :
    (ofMachine m).set x byte = some (ofMachine (m.setReg x byte)) := by
  have hput : put? (ofMachine m).registers x byte = some (m.registers.set x byte) :=
    put?_of_lt m.registers byte x.isLt
  rw [set, hput]
  rfl

theorem setFlagged_ofMachine (m : Machine) (x : Register) (outcome : UInt8 × Bool) :
    (ofMachine m).setFlagged x outcome = some (ofMachine (m.setFlagged x outcome)) := by
  have hflag := set_ofMachine m 15 (Arithmetic.flagByte outcome.2)
  change (ofMachine m).set 15 (Arithmetic.flagByte outcome.2) = _ at hflag
  rw [setFlagged, hflag]
  exact set_ofMachine _ x outcome.1

theorem next_ofMachine (hpc : m.pc.toNat ≤ 0xFFE) :
    (ofMachine m).next 2 = some (ofMachine m.advance) := by
  have hsum : sum? (ofMachine m).pc 2 = some (m.pc + 2) := by
    have htwo : (2 : Word).toNat = 2 := rfl
    have hpc' : (ofMachine m).pc.toNat ≤ 0xFFE := hpc
    exact sum?_of_lt (by omega)
  rw [next, hsum]
  rfl

theorem skipIf_ofMachine (hpc : m.pc.toNat ≤ 0xFFE) (condition : Bool) :
    (ofMachine m).skipIf condition = some (ofMachine (m.skipIf condition)) := by
  have hpc' : (ofMachine m).pc.toNat ≤ 0xFFE := hpc
  have hsum : sum? (ofMachine m).pc (if condition then 4 else 2) =
      some (m.pc + if condition then 4 else 2) := by
    have htwo : (2 : Word).toNat = 2 := rfl
    have hfour : (4 : Word).toNat = 4 := rfl
    apply sum?_of_lt
    split <;> omega
  rw [skipIf, next, hsum]
  rfl

theorem requestRedraw_ofMachine (m : Machine) :
    (ofMachine m).requestRedraw = ofMachine m.requestRedraw := by
  have hp : (ofMachine m).pendingRedraws = m.pendingRedraws := rfl
  rw [requestRedraw, Machine.requestRedraw, hp]
  split <;> rfl

/-- A frame in plain numbers, with the flag of a drawing. -/
def ofDrawing (drawing : Frame × Bool) : Vector UInt8 2048 × Bool :=
  (drawing.1.cells.map Arithmetic.flagByte, drawing.2)

theorem positions_eq (sprite : Sprite) (x y : UInt8) :
    positions sprite x y = (sprite.cells x y).map Fin.val := by
  simp only [positions, Sprite.cells, Sprite.rowCells, Sprite.cell, List.map_flatMap, List.map_map]
  rfl

theorem flagByte_xor_one (on : Bool) :
    Arithmetic.flagByte on ^^^ 1 = Arithmetic.flagByte (!on) := by
  cases on <;> rfl

theorem flagByte_beq_one (on : Bool) : (Arithmetic.flagByte on == 1) = on := by
  cases on <;> rfl

theorem strike_ofDrawing (drawing : Frame × Bool) (c : Cell) :
    strike (ofDrawing drawing) c = some (ofDrawing (Frame.strike drawing c)) := by
  obtain ⟨f, hit⟩ := drawing
  have hread : (f.cells.map Arithmetic.flagByte)[c.val]? =
      some (Arithmetic.flagByte (f.lit c)) := by
    rw [Vector.getElem?_eq_getElem c.isLt, Vector.getElem_map]
    rfl
  have hput : put? (f.cells.map Arithmetic.flagByte) c (Arithmetic.flagByte (f.lit c) ^^^ 1) =
      some ((f.toggle c).cells.map Arithmetic.flagByte) := by
    rw [put?_of_lt _ _ c.isLt, flagByte_xor_one, Frame.toggle, Frame.put, Vector.map_set]
  simp only [strike, ofDrawing, hread, hput, flagByte_beq_one, Option.bind_eq_bind,
    Option.bind_some, Option.pure_def, Frame.strike]

theorem foldlM_strike (cells : List Cell) (drawing : Frame × Bool) :
    (cells.map Fin.val).foldlM strike (ofDrawing drawing) =
      some (ofDrawing (cells.foldl Frame.strike drawing)) := by
  induction cells generalizing drawing with
  | nil => rfl
  | cons c cells ih =>
    rw [List.map_cons, List.foldlM_cons, strike_ofDrawing]
    exact ih (Frame.strike drawing c)

/-- An attempt that comes to what the machine's outcome says. -/
def Agrees (attempt : Attempt) (o : Outcome Machine Unit) : Prop :=
  attempt = some (o.result, ofMachine o.state)

theorem update_agrees (hpc : m.pc.toNat ≤ 0xFFE) (x : Register) (f : UInt8 → UInt8) :
    Agrees ((ofMachine m).update x f) (.done () (m.setReg x (f (m.reg x))).advance) := by
  have hpc' : (m.setReg x (f (m.reg x))).pc.toNat ≤ 0xFFE := hpc
  simp only [Agrees, update, get_ofMachine, set_ofMachine, Option.bind_eq_bind, Option.bind_some,
    next_ofMachine hpc', succeed, Option.map_some, Outcome.done]

theorem combine_agrees (hpc : m.pc.toNat ≤ 0xFFE) (x y : Register)
    (f : UInt8 → UInt8 → UInt8) :
    Agrees ((ofMachine m).combine x y f)
      (.done () (m.setReg x (f (m.reg x) (m.reg y))).advance) := by
  have hpc' : (m.setReg x (f (m.reg x) (m.reg y))).pc.toNat ≤ 0xFFE := hpc
  simp only [Agrees, combine, get_ofMachine, set_ofMachine, Option.bind_eq_bind, Option.bind_some,
    next_ofMachine hpc', succeed, Option.map_some, Outcome.done]

theorem combineFlagged_agrees (hpc : m.pc.toNat ≤ 0xFFE) (x y : Register)
    (f : UInt8 → UInt8 → UInt8 × Bool) :
    Agrees ((ofMachine m).combineFlagged x y f)
      (.done () (m.setFlagged x (f (m.reg x) (m.reg y))).advance) := by
  have hpc' : (m.setFlagged x (f (m.reg x) (m.reg y))).pc.toNat ≤ 0xFFE := hpc
  simp only [Agrees, combineFlagged, get_ofMachine, setFlagged_ofMachine, Option.bind_eq_bind,
    Option.bind_some, next_ofMachine hpc', succeed, Option.map_some, Outcome.done]

theorem skipOn_agrees (hpc : m.pc.toNat ≤ 0xFFE) (x y : Register)
    (test : UInt8 → UInt8 → Bool) :
    Agrees ((ofMachine m).skipOn x y test) (.done () (m.skipIf (test (m.reg x) (m.reg y)))) := by
  simp only [Agrees, skipOn, get_ofMachine, Option.bind_eq_bind, Option.bind_some,
    skipIf_ofMachine hpc, succeed, Option.map_some, Outcome.done]

theorem toNat_top (m : Machine) : (ofMachine m).top.toNat = m.calls.depth.val := by
  have hd := m.calls.depth.isLt
  show (UInt8.ofNat m.calls.depth).toNat = _
  rw [UInt8.toNat_ofNat']
  omega

theorem fail_agrees (m : Machine) (fault : Fault) :
    Agrees ((ofMachine m).fail fault) (.failed fault m) :=
  rfl

theorem ret_agrees (hlive : ∀ addr ∈ m.calls.live, addr.toNat ≤ 0xFFE) :
    Agrees (ofMachine m).ret m.ret := by
  have htop := toNat_top m
  have hd := m.calls.depth.isLt
  by_cases hz : m.calls.depth.val = 0
  · have htop0 : (ofMachine m).top = 0 := UInt8.toNat.inj (by rw [htop, hz]; rfl)
    rw [ret, if_pos htop0, Machine.ret, CallStack.pop?, if_pos hz]
    exact fail_agrees m _
  · have htop0 : (ofMachine m).top ≠ 0 := fun h => hz (by rw [← htop, h]; rfl)
    have hpop : m.calls.pop? = some (m.calls.slots[m.calls.depth],
        ⟨m.calls.slots, ⟨m.calls.depth - 1, by omega⟩⟩) := by
      rw [CallStack.pop?, if_neg hz]
    have hmem : m.calls.slots[m.calls.depth] ∈ m.calls.live := by
      rw [CallStack.live_of_pop? hpop]
      exact List.mem_cons_self
    have hread : (ofMachine m).slots[(ofMachine m).top.toNat]? =
        some m.calls.slots[m.calls.depth] := by
      rw [htop]
      exact Vector.getElem?_eq_getElem hd
    have hsum : sum? m.calls.slots[m.calls.depth] 2 = some (m.calls.slots[m.calls.depth] + 2) := by
      have haddr := hlive _ hmem
      have htwo : (2 : Word).toNat = 2 := rfl
      exact sum?_of_lt (by omega)
    have hone : (1 : UInt8).toNat = 1 := rfl
    have hless : difference? (ofMachine m).top 1 = some ((ofMachine m).top - 1) :=
      difference?_of_le (by omega)
    have hnewTop : (ofMachine m).top - 1 = UInt8.ofNat (m.calls.depth.val - 1) := by
      apply UInt8.toNat.inj
      have hle : (1 : UInt8) ≤ (ofMachine m).top := UInt8.le_iff_toNat_le.mpr (by omega)
      rw [UInt8.toNat_sub_of_le _ _ hle, UInt8.toNat_ofNat']
      omega
    rw [ret, if_neg htop0, Machine.ret, hpop]
    simp only [Agrees, hread, hsum, hless, hnewTop, Option.bind_eq_bind, Option.bind_some,
      Option.pure_def, succeed, Option.map_some, Outcome.done]
    rfl

theorem call_agrees (m : Machine) (addr : Word) :
    Agrees ((ofMachine m).call addr) (m.call addr) := by
  have htop := toNat_top m
  by_cases hd : m.calls.depth.val + 1 < 16
  · have hroom : ¬ 16 ≤ (ofMachine m).top.toNat + 1 := by omega
    have hput : put? (ofMachine m).slots (m.calls.depth.val + 1) (ofMachine m).pc =
        some (m.calls.slots.set (m.calls.depth.val + 1) m.pc) :=
      put?_of_lt _ _ hd
    rw [call, if_neg hroom, Machine.call, CallStack.push?, dif_pos hd]
    simp only [Agrees, htop, hput, Option.bind_eq_bind, Option.bind_some, Option.pure_def, succeed,
      Option.map_some, Outcome.done]
    rfl
  · have hroom : 16 ≤ (ofMachine m).top.toNat + 1 := by omega
    rw [call, if_pos hroom, Machine.call, CallStack.push?, dif_neg hd]
    exact fail_agrees m _

theorem storeAtIndex_agrees (hpc : m.pc.toNat ≤ 0xFFE) {len : Nat} {bytes : List UInt8}
    (hl : bytes.length = len) :
    Agrees ((ofMachine m).storeAtIndex len (some bytes)) (m.storeAtIndex bytes) := by
  have hi : (ofMachine m).index = m.index := rfl
  subst hl
  by_cases h : m.index.toNat + bytes.length ≤ 4096
  · have hfill : fill? (ofMachine m).memory m.index.toNat bytes.length bytes =
        some (m.memory.write m.index.toNat bytes) :=
      fill?_memory m.memory h rfl
    have hnext := next_ofMachine
      (m := { m with memory := m.memory.write m.index.toNat bytes }) hpc
    rw [storeAtIndex, hi, if_pos h, Machine.storeAtIndex, Span.at?_of_fits h]
    simp only [Agrees, hfill, Option.bind_eq_bind, Option.bind_some, succeed, Outcome.done]
    exact congrArg (Option.map _) hnext
  · rw [storeAtIndex, hi, if_neg h, Machine.storeAtIndex, Span.at?_of_not_fits h]
    exact fail_agrees m _

theorem loadAtIndex_agrees (hpc : m.pc.toNat ≤ 0xFFE) (x : Register) :
    Agrees ((ofMachine m).loadAtIndex (x + 1)) (m.loadAtIndex x) := by
  have hi : (ofMachine m).index = m.index := rfl
  by_cases h : m.index.toNat + (x + 1) ≤ 4096
  · have hslice : slice? (ofMachine m).memory m.index.toNat (x + 1) =
        some (m.memory.read ⟨m.index.toNat, x + 1, h⟩) :=
      slice?_memory m.memory h
    have hfill : fill? (ofMachine m).registers 0 (x + 1)
          (m.memory.read ⟨m.index.toNat, x + 1, h⟩) =
        some (m.loadRegs (m.memory.read ⟨m.index.toNat, x + 1, h⟩)).registers :=
      fill?_registers m (Nat.succ_le_of_lt x.isLt) (Memory.length_read m.memory _)
    -- from here on it does not matter how the new registers came about
    obtain ⟨registers, hregs⟩ := m.loadRegs_eq (m.memory.read ⟨m.index.toNat, x + 1, h⟩)
    rw [hregs] at hfill
    rw [loadAtIndex, hi, if_pos h, Machine.loadAtIndex, Span.at?_of_fits h]
    simp only [Agrees, hslice, hfill, hregs, Option.bind_eq_bind, Option.bind_some, succeed,
      Outcome.done]
    exact congrArg (Option.map _) (next_ofMachine (m := { m with registers := registers }) hpc)
  · rw [loadAtIndex, hi, if_neg h, Machine.loadAtIndex, Span.at?_of_not_fits h]
    exact fail_agrees m _

theorem clear_agrees (hpc : m.pc.toNat ≤ 0xFFE) :
    Agrees (succeed ({ ofMachine m with pixels := Vector.replicate 2048 0 }.requestRedraw.next 2))
      m.clear := by
  have hblank : { ofMachine m with pixels := Vector.replicate 2048 0 } =
      ofMachine { m with frame := Frame.blank } := by
    simp only [ofMachine, Frame.blank, Vector.map_replicate]
    rfl
  have hpc' : { m with frame := Frame.blank }.requestRedraw.pc.toNat ≤ 0xFFE := by
    rw [Machine.pc_requestRedraw]
    exact hpc
  rw [hblank, requestRedraw_ofMachine, next_ofMachine hpc']
  rfl

theorem foldlM_strike_positions (m : Machine) (sprite : Sprite) (x y : UInt8) :
    (positions sprite x y).foldlM strike ((ofMachine m).pixels, false) =
      some (ofDrawing (m.frame.draw sprite x y)) := by
  rw [positions_eq]
  exact foldlM_strike (sprite.cells x y) (m.frame, false)

theorem draw_agrees (hpc : m.pc.toNat ≤ 0xFFE) (x y : Register) (n : UInt8) :
    Agrees ((ofMachine m).draw x y n.toNat) (m.draw x y n) := by
  have hi : (ofMachine m).index = m.index := rfl
  by_cases h : m.index.toNat + n.toNat ≤ 4096
  · have hslice : slice? (ofMachine m).memory m.index.toNat n.toNat =
        some (m.memory.read ⟨m.index.toNat, n.toNat, h⟩) :=
      slice?_memory m.memory h
    rw [draw, hi, if_pos h, Machine.draw, Span.at?_of_fits h]
    simp only [Agrees, hslice, get_ofMachine, foldlM_strike_positions, Option.bind_eq_bind,
      Option.bind_some]
    generalize m.frame.draw _ (m.reg x) (m.reg y) = drawn
    have hflag := set_ofMachine { m with frame := drawn.1 } 0xF (Arithmetic.flagByte drawn.2)
    have hpc' : ({ m with frame := drawn.1 }.setReg 0xF
        (Arithmetic.flagByte drawn.2)).requestRedraw.pc.toNat ≤ 0xFFE := by
      rw [Machine.pc_requestRedraw]
      exact hpc
    have hnext := next_ofMachine hpc'
    rw [← requestRedraw_ofMachine] at hnext
    refine (congrArg succeed (congrArg (Option.bind · _) hflag)).trans ?_
    exact congrArg succeed hnext
  · rw [draw, hi, if_neg h, Machine.draw, Span.at?_of_not_fits h]
    exact fail_agrees m _

theorem random_agrees (hpc : m.pc.toNat ≤ 0xFFE) (supply : Supply) (x : Register) (kk : UInt8) :
    Agrees ((ofMachine m).random supply x kk) (m.random supply x kk) := by
  have hset := set_ofMachine { m with bytesAsked := m.bytesAsked + 1 } x
    (kk + supply.randomByte m.bytesAsked)
  change { ofMachine m with bytesAsked := (ofMachine m).bytesAsked + 1 }.set x
    (kk + supply.randomByte (ofMachine m).bytesAsked) = _ at hset
  have hpc' : ({ m with bytesAsked := m.bytesAsked + 1 }.setReg x
    (kk + supply.randomByte m.bytesAsked)).pc.toNat ≤ 0xFFE := hpc
  simp only [Agrees, random, hset, Option.bind_eq_bind, Option.bind_some, next_ofMachine hpc',
    succeed]
  rfl

theorem awaitKey_agrees (hpc : m.pc.toNat ≤ 0xFFE) (supply : Supply) (x : Register) :
    Agrees ((ofMachine m).awaitKey supply x) (m.awaitKey supply x) := by
  have hasked : supply.awaitedKey (ofMachine m).keysAsked (ofMachine m).keypad =
      supply.awaitedKey m.keysAsked m.keypad := rfl
  rw [awaitKey, Machine.awaitKey, hasked]
  cases supply.awaitedKey m.keysAsked m.keypad with
  | none => rfl
  | some key =>
    have hset := set_ofMachine { m with keysAsked := m.keysAsked + 1 } x key
    change { ofMachine m with keysAsked := (ofMachine m).keysAsked + 1 }.set x key = _ at hset
    have hpc' : ({ m with keysAsked := m.keysAsked + 1 }.setReg x key).pc.toNat ≤ 0xFFE := hpc
    simp only [Agrees, hset, Option.bind_eq_bind, Option.bind_some, next_ofMachine hpc', succeed]
    rfl

theorem next_agrees (hpc : m.pc.toNat ≤ 0xFFE) :
    Agrees (succeed ((ofMachine m).next 2)) (.done () m.advance) := by
  rw [next_ofMachine hpc]
  rfl

theorem jumpOffset_agrees {addr : Word} (haddr : addr.toNat < 4096) (supply : Supply) :
    Agrees ((ofMachine m).execute supply (.jumpOffset addr))
      (m.execute supply (.jumpOffset addr)) := by
  have hget : (ofMachine m).get 0 = some (m.reg 0) := get_ofMachine m 0
  have hbyte := (m.reg 0).toNat_lt
  have hsum : sum? addr (m.reg 0).toUInt16 = some (addr + (m.reg 0).toUInt16) := by
    apply sum?_of_lt
    rw [UInt8.toNat_toUInt16]
    omega
  simp only [Agrees, execute, hget, hsum, Option.bind_eq_bind, Option.bind_some, Option.pure_def,
    succeed, Option.map_some]
  rfl

theorem loadGlyph_agrees (hpc : m.pc.toNat ≤ 0xFFE) (supply : Supply) (x : Register) :
    Agrees ((ofMachine m).execute supply (.loadGlyph x)) (m.execute supply (.loadGlyph x)) := by
  have hbyte := (m.reg x).toNat_lt
  have hfive : (5 : Word).toNat = 5 := rfl
  have hproduct : product? (m.reg x).toUInt16 5 = some ((m.reg x).toUInt16 * 5) := by
    apply product?_of_lt
    rw [UInt8.toNat_toUInt16, hfive]
    omega
  simp only [execute, get_ofMachine, hproduct, Option.bind_eq_bind, Option.bind_some]
  exact next_agrees (m := { m with index := (m.reg x).toUInt16 * 5 }) hpc

theorem execute_agrees (hpc : m.pc.toNat ≤ 0xFFE)
    (hlive : ∀ addr ∈ m.calls.live, addr.toNat ≤ 0xFFE) (supply : Supply) {ins : Instruction}
    (hw : ins.WellFormed) :
    Agrees ((ofMachine m).execute supply ins) (m.execute supply ins) := by
  cases ins with
  | clear => exact clear_agrees hpc
  | ret => exact ret_agrees hlive
  | jump addr => rfl
  | call addr => exact call_agrees m addr
  | skipIfByte x kk => exact skipOn_agrees hpc x x _
  | skipUnlessByte x kk => exact skipOn_agrees hpc x x _
  | skipIfSame x y => exact skipOn_agrees hpc x y _
  | loadByte x kk => exact update_agrees hpc x _
  | addByte x kk => exact update_agrees hpc x _
  | copy x y => exact combine_agrees hpc x y _
  | or x y => exact combine_agrees hpc x y _
  | and x y => exact combine_agrees hpc x y _
  | xor x y => exact combine_agrees hpc x y _
  | add x y => exact combineFlagged_agrees hpc x y _
  | subtract x y => exact combineFlagged_agrees hpc x y _
  | shiftRight x => exact combineFlagged_agrees hpc x x _
  | subtractFrom x y => exact combineFlagged_agrees hpc x y _
  | shiftLeft x => exact combineFlagged_agrees hpc x x _
  | skipUnlessSame x y => exact skipOn_agrees hpc x y _
  | loadIndex addr => exact next_agrees (m := { m with index := addr }) hpc
  | jumpOffset addr => exact jumpOffset_agrees hw supply
  | random x kk => exact random_agrees hpc supply x kk
  | draw x y n => exact draw_agrees hpc x y n
  | skipIfHeld x => exact skipOn_agrees hpc x x _
  | skipUnlessHeld x => exact skipOn_agrees hpc x x _
  | readDelay x => exact update_agrees hpc x _
  | awaitKey x => exact awaitKey_agrees hpc supply x
  | setDelay x =>
    simp only [execute, get_ofMachine, Option.bind_eq_bind, Option.bind_some]
    exact next_agrees (m := { m with delay := m.reg x }) hpc
  | setSound x =>
    simp only [execute, get_ofMachine, Option.bind_eq_bind, Option.bind_some]
    exact next_agrees (m := { m with sound := m.reg x }) hpc
  | addIndex x =>
    simp only [execute, get_ofMachine, Option.bind_eq_bind, Option.bind_some]
    exact next_agrees (m := { m with index := m.index + (m.reg x).toUInt16 }) hpc
  | loadGlyph x => exact loadGlyph_agrees hpc supply x
  | storeDecimal x =>
    rw [execute, get_ofMachine]
    exact storeAtIndex_agrees hpc rfl
  | storeRegisters x =>
    have hslice : slice? (ofMachine m).registers 0 (x + 1) = some (m.regsTo x) :=
      slice?_registers m x
    rw [execute, hslice]
    exact storeAtIndex_agrees hpc (Machine.length_regsTo m x)
  | loadRegisters x => exact loadAtIndex_agrees hpc x

theorem fetch_ofMachine (m : Machine) : (ofMachine m).fetch = some (m.memory.wordAt? m.pc) := by
  have hpc : (ofMachine m).pc = m.pc := rfl
  by_cases h : m.pc.toNat + 1 < 4096
  · have hhigh : (ofMachine m).memory[m.pc.toNat]? = some m.memory[m.pc.toNat] :=
      Vector.getElem?_eq_getElem (by omega)
    have hlow : (ofMachine m).memory[m.pc.toNat + 1]? = some m.memory[m.pc.toNat + 1] :=
      Vector.getElem?_eq_getElem h
    rw [fetch, hpc, if_neg (by omega), Memory.wordAt?, dif_pos h]
    simp only [hhigh, hlow, Option.bind_eq_bind, Option.bind_some, Option.pure_def]
  · rw [fetch, hpc, if_pos (by omega), Memory.wordAt?, dif_neg h]

theorem lower_eq (timer : UInt8) : lower timer = some (UInt8.ofNat (timer.toNat - 1)) := by
  have hone : (1 : UInt8).toNat = 1 := rfl
  have hlt := timer.toNat_lt
  by_cases h : 0 < timer.toNat
  · have hle : (1 : UInt8) ≤ timer := UInt8.le_iff_toNat_le.mpr (by omega)
    rw [lower, if_pos h, difference?_of_le (by omega)]
    apply congrArg some
    apply UInt8.toNat.inj
    rw [UInt8.toNat_sub_of_le _ _ hle, UInt8.toNat_ofNat']
    omega
  · rw [lower, if_neg h]
    apply congrArg some
    apply UInt8.toNat.inj
    rw [UInt8.toNat_ofNat']
    omega

theorem countDown_ofMachine (m : Machine) :
    (ofMachine m).countDown = some (ofMachine m.countDown) := by
  simp only [countDown, lower_eq, Option.bind_eq_bind, Option.bind_some, Option.pure_def]
  rfl

theorem step_agrees (hm : m.InBounds) (supply : Supply) :
    Agrees ((ofMachine m).step supply) (m.step supply) := by
  rw [step, fetch_ofMachine, Machine.step]
  cases hw : m.memory.wordAt? m.pc with
  | error fault => exact fail_agrees m fault
  | ok word =>
    simp only [Option.bind_eq_bind, Option.bind_some, Machine.perform]
    cases hd : Instruction.decode word with
    | error fault => exact fail_agrees m fault
    | ok ins =>
      have he : (ofMachine m).execute supply ins =
          some ((m.execute supply ins).result, ofMachine (m.execute supply ins).state) :=
        execute_agrees (Machine.pc_of_fetch hw) hm.live_le supply
          (Instruction.wellFormed_of_decode hd)
      simp only [he, Option.bind_some]
      cases hr : m.refusal? ins with
      | some fault =>
        rw [Machine.execute_of_refusal hr]
        exact fail_agrees m fault
      | none =>
        have hok := Machine.execute_of_accepted hr supply
        have hlater : ((m.execute supply ins).after
            [.executing word ins m.registers m.index m.pc]).result = .ok () := hok
        rw [hok, Outcome.andThen_of_ok hlater]
        exact congrArg succeed (countDown_ofMachine (m.execute supply ins).state)

theorem install_ofMachine (m : Machine) (program : List UInt8) :
    Agrees ((ofMachine m).install program) (m.install program) := by
  by_cases h : programCapacity < program.length
  · rw [install, if_pos h, Machine.install, if_pos h]
    exact fail_agrees m _
  · have hfill : fill? (ofMachine m).memory programStart program.length program =
        some (m.memory.write programStart program) := by
      have hstart : programStart = 512 := rfl
      have hcap : programCapacity = 3584 := rfl
      exact fill?_memory m.memory (by omega) rfl
    rw [install, if_neg h, Machine.install, if_neg h]
    simp only [Agrees, hfill, Option.bind_eq_bind, Option.bind_some, Option.pure_def, succeed,
      Option.map_some]
    rfl

theorem act_ofMachine (hm : m.InBounds) (supply : Supply) (op : Operation) :
    (ofMachine m).act supply op = some (ofMachine (m.act supply op)) := by
  cases op with
  | step => rw [act, step_agrees hm supply]; rfl
  | press code => rfl
  | releaseKeys => rfl
  | takeRedraw =>
    rw [Machine.act, Machine.takeRedraw_eq]
    rfl
  | install program => rw [act, install_ofMachine m program]; rfl

theorem run_ofMachine (hm : m.InBounds) (supply : Supply) (ops : List Operation) :
    (ofMachine m).run supply ops = some (ofMachine (m.run supply ops)) := by
  induction ops generalizing m with
  | nil => rfl
  | cons op ops ih =>
    rw [run, act_ofMachine hm supply op]
    exact ih (Machine.inBounds_act supply m op hm)

/-- The bounds of a run, on the numbers themselves. -/
structure Bounded (s : Strict) : Prop where
  top_le : s.top.toNat ≤ 15
  pc_le : s.pc.toNat ≤ 0x10FE
  slot_le : ∀ k, 1 ≤ k → k ≤ s.top.toNat → ∃ addr, s.slots[k]? = some addr ∧ addr.toNat ≤ 0xFFE
  pixel_eq : ∀ byte ∈ s.pixels, byte = 0 ∨ byte = 1
  pending_le : s.pendingRedraws ≤ 5

theorem mem_downFrom (slots : Vector Word 16) {k top : Nat} (hk : 1 ≤ k) (hle : k ≤ top) :
    slots[k]?.getD 0 ∈ CallStack.downFrom slots top := by
  induction top with
  | zero => omega
  | succ top ih =>
    rw [CallStack.downFrom]
    by_cases heq : k = top + 1
    · rw [heq]
      exact List.mem_cons_self
    · exact List.mem_cons_of_mem _ (ih (by omega))

theorem bounded_ofMachine (hm : m.InBounds) : (ofMachine m).Bounded where
  top_le := by
    have hd := m.calls.depth.isLt
    rw [toNat_top]
    omega
  pc_le := hm.pc_le
  slot_le := by
    intro k hk hle
    rw [toNat_top] at hle
    have hd := m.calls.depth.isLt
    have hread : m.calls.slots[k]? = some m.calls.slots[k] :=
      Vector.getElem?_eq_getElem (by omega)
    have hmem := mem_downFrom m.calls.slots hk hle
    rw [hread] at hmem
    exact ⟨m.calls.slots[k], hread, hm.live_le _ hmem⟩
  pixel_eq := by
    intro byte hb
    obtain ⟨on, -, rfl⟩ := Vector.mem_map.mp hb
    cases on
    · exact .inl rfl
    · exact .inr rfl
  pending_le := hm.pending_le

/-- Whatever is done to a machine that has just been switched on, it stays within its bounds, no
limit is left on the way there and none in the next step. -/
theorem run_never_stops (supply : Supply) (ops : List Operation) :
    let m := Machine.initial.run supply ops
    initial.run supply ops = some (ofMachine m) ∧ (ofMachine m).Bounded ∧ m.InBounds ∧
      (ofMachine m).step supply =
        some ((m.step supply).result, ofMachine (m.step supply).state) := by
  intro m
  have hm : m.InBounds := Machine.inBounds_run supply ops
  refine ⟨?_, bounded_ofMachine hm, hm, step_agrees hm supply⟩
  rw [← ofMachine_initial]
  exact run_ofMachine Machine.inBounds_initial supply ops

end Chip8.Strict
