import Stm32Eth.Lib.Extent
import Mathlib.Logic.Function.Basic

/-!
# A fragment of the Thumb instruction set

The load, store, arithmetic, compare and branch instructions that short start-up and delay code is
written in, over registers, flags and a little-endian memory of bytes. A program is a list of
instructions and a label is an index into it. `Steps prog n s t` says that `n` instructions lead
from `s` to `t`; control leaves a program at a call of a symbol outside it.

Loops are handled by `Steps.loop`: a body that carries an invariant from `k + 1` rounds left to `k`
runs all its rounds. Stores are described through extents: what a word store copies and what it
leaves alone.
-/

namespace Thumb

open Extent

/-- A word of the machine. -/
abbrev Word := BitVec 32

/-- The core registers, without the program counter. -/
inductive Reg
  | r0 | r1 | r2 | r3 | r4 | r5 | r6 | r7 | r8 | r9 | r10 | r11 | r12 | sp | lr
  deriving DecidableEq, Repr

/-- The condition flags. -/
structure Flags where
  n : Bool
  z : Bool
  c : Bool
  v : Bool
  deriving DecidableEq, Repr

/-- The memory, by bytes. -/
abbrev Memory := Word → BitVec 8

/-- The state of the machine: `pc` is an index into the program. -/
structure State where
  regs : Reg → Word
  flags : Flags
  mem : Memory
  pc : ℕ

/-- The instructions. A target of a branch is an index into the program, and `bl` calls a symbol
outside it. -/
inductive Instr
  /-- `ldr rt, =w` -/
  | ldrLit (rt : Reg) (w : Word)
  /-- `ldr rt, [rn, rm]` -/
  | ldr (rt rn rm : Reg)
  /-- `str rt, [rn, rm]` -/
  | str (rt rn rm : Reg)
  /-- `str rt, [rn]` -/
  | strBase (rt rn : Reg)
  /-- `movs rd, #imm` -/
  | movs (rd : Reg) (imm : Word)
  /-- `adds rd, rn, rm` -/
  | adds (rd rn rm : Reg)
  /-- `adds rd, rn, #imm` -/
  | addsImm (rd rn : Reg) (imm : Word)
  /-- `subs rd, rn, #imm` -/
  | subsImm (rd rn : Reg) (imm : Word)
  /-- `cmp rn, rm` -/
  | cmp (rn rm : Reg)
  /-- `b target` -/
  | b (target : ℕ)
  /-- `bcc target`: branch if the carry flag is clear -/
  | bcc (target : ℕ)
  /-- `bne target`: branch if the zero flag is clear -/
  | bne (target : ℕ)
  /-- `bl symbol` -/
  | bl (symbol : String)
  /-- `bx lr` -/
  | bxLr

/-! ## Memory -/

/-- The word at an address, least significant byte first. -/
def readWord (m : Memory) (a : Word) : Word := m (a + 3) ++ m (a + 2) ++ m (a + 1) ++ m a

/-- Store a word at an address. -/
def writeWord (m : Memory) (a w : Word) : Memory := fun b =>
  if (b - a).toNat < 4 then w.extractLsb' (8 * (b - a).toNat) 8 else m b

/-- A byte of a word that was read. -/
theorem extractLsb'_readWord (m : Memory) (a : Word) {k : ℕ} (hk : k < 4) :
    (readWord m a).extractLsb' (8 * k) 8 = m (a + BitVec.ofNat 32 k) := by
  have hcases : k = 0 ∨ k = 1 ∨ k = 2 ∨ k = 3 := by omega
  apply BitVec.eq_of_getLsbD_eq
  intro i hi
  rw [readWord, BitVec.getLsbD_extractLsb']
  simp only [BitVec.getLsbD_append, hi, decide_true, Bool.true_and]
  rcases hcases with rfl | rfl | rfl | rfl
  · rw [if_pos (by omega)]
    simp
  · rw [if_neg (by omega), if_pos (by omega)]
    congr 1
    omega
  · rw [if_neg (by omega), if_neg (by omega), if_pos (by omega)]
    congr 1
    omega
  · rw [if_neg (by omega), if_neg (by omega), if_neg (by omega)]
    congr 1
    omega

/-- A word store leaves every byte outside its four alone. -/
theorem writeWord_of_notMem {m : Memory} {a w b : Word} (h : b ∉ extent a 4) :
    writeWord m a w b = m b := if_neg h

/-- A word store of a word that was read copies its bytes. -/
theorem writeWord_readWord {m m' : Memory} {a c b : Word} (h : b ∈ extent a 4) :
    writeWord m a (readWord m' c) b = m' (c + (b - a)) := by
  rw [mem_extent] at h
  rw [writeWord, if_pos h, extractLsb'_readWord m' c h, BitVec.ofNat_toNat, BitVec.setWidth_eq]

/-- A word store of zero clears its bytes. -/
theorem writeWord_zero {m : Memory} {a b : Word} (h : b ∈ extent a 4) :
    writeWord m a 0 b = 0 := by
  rw [mem_extent] at h
  rw [writeWord, if_pos h]
  simp

/-- A word depends on its four bytes only. -/
theorem readWord_congr {m m' : Memory} {a : Word} (h : ∀ b ∈ extent a 4, m b = m' b) :
    readWord m a = readWord m' a := by
  have hbyte : ∀ k < 4, m (a + BitVec.ofNat 32 k) = m' (a + BitVec.ofNat 32 k) := fun k hk =>
    h _ (add_mem_extent a hk (by decide))
  have h0 := hbyte 0 (by omega)
  rw [BitVec.add_zero] at h0
  unfold readWord
  rw [h0]
  congr 1
  congr 1
  congr 1
  · exact hbyte 3 (by omega)
  · exact hbyte 2 (by omega)
  · exact hbyte 1 (by omega)

/-- The memory after `n` bytes from `src` on were copied to `dst`. -/
def copyBytes (m : Memory) (dst src : Word) (n : ℕ) : Memory := fun a =>
  if (a - dst).toNat < n then m (src + (a - dst)) else m a

/-- The memory after `n` bytes from `dst` on were cleared. -/
def zeroBytes (m : Memory) (dst : Word) (n : ℕ) : Memory := fun a =>
  if (a - dst).toNat < n then 0 else m a

@[simp] theorem copyBytes_zero (m : Memory) (dst src : Word) : copyBytes m dst src 0 = m := by
  funext a
  simp [copyBytes]

@[simp] theorem zeroBytes_zero (m : Memory) (dst : Word) : zeroBytes m dst 0 = m := by
  funext a
  simp [zeroBytes]

/-- **Copying one more word.** The blocks do not overlap, so the source is still what it was. -/
theorem writeWord_copyBytes {m : Memory} {dst src : Word} {n : ℕ} (hn : n + 4 ≤ 2 ^ 32)
    (hdisj : ∀ b ∈ extent (src + BitVec.ofNat 32 n) 4, b ∉ extent dst n) :
    writeWord (copyBytes m dst src n) (dst + BitVec.ofNat 32 n)
        (readWord (copyBytes m dst src n) (src + BitVec.ofNat 32 n))
      = copyBytes m dst src (n + 4) := by
  have hoff : (BitVec.ofNat 32 n : Word).toNat = n := by
    rw [BitVec.toNat_ofNat, Nat.mod_eq_of_lt (by omega)]
  have hsource : readWord (copyBytes m dst src n) (src + BitVec.ofNat 32 n)
      = readWord m (src + BitVec.ofNat 32 n) :=
    readWord_congr fun b hb => if_neg (hdisj b hb)
  funext a
  have hmem : a ∈ extent (dst + BitVec.ofNat 32 n) 4 ↔
      n ≤ (a - dst).toNat ∧ (a - dst).toNat < n + 4 := by
    rw [mem_extent_add (by omega), hoff]
  rw [hsource]
  by_cases ha : a ∈ extent (dst + BitVec.ofNat 32 n) 4
  · -- one of the four new bytes
    have hadd : src + BitVec.ofNat 32 n + (a - (dst + BitVec.ofNat 32 n)) = src + (a - dst) := by
      rw [← BitVec.sub_sub, BitVec.add_assoc, BitVec.add_comm (BitVec.ofNat 32 n),
        BitVec.sub_add_cancel]
    rw [writeWord_readWord ha, hadd, copyBytes, if_pos (hmem.mp ha).2]
  · rw [writeWord_of_notMem ha, copyBytes, copyBytes]
    rw [hmem] at ha
    by_cases hlt : (a - dst).toNat < n
    · rw [if_pos hlt, if_pos (by omega)]
    · rw [if_neg hlt, if_neg (by omega)]

/-- **Clearing one more word.** -/
theorem writeWord_zeroBytes {m : Memory} {dst : Word} {n : ℕ} (hn : n + 4 ≤ 2 ^ 32) :
    writeWord (zeroBytes m dst n) (dst + BitVec.ofNat 32 n) 0 = zeroBytes m dst (n + 4) := by
  have hoff : (BitVec.ofNat 32 n : Word).toNat = n := by
    rw [BitVec.toNat_ofNat, Nat.mod_eq_of_lt (by omega)]
  funext a
  have hmem : a ∈ extent (dst + BitVec.ofNat 32 n) 4 ↔
      n ≤ (a - dst).toNat ∧ (a - dst).toNat < n + 4 := by
    rw [mem_extent_add (by omega), hoff]
  by_cases ha : a ∈ extent (dst + BitVec.ofNat 32 n) 4
  · rw [writeWord_zero ha, zeroBytes, if_pos (hmem.mp ha).2]
  · rw [writeWord_of_notMem ha, zeroBytes, zeroBytes]
    rw [hmem] at ha
    by_cases hlt : (a - dst).toNat < n
    · rw [if_pos hlt, if_pos (by omega)]
    · rw [if_neg hlt, if_neg (by omega)]

/-! ## Arithmetic -/

/-- The sum of two words and a carry, with the flags. -/
def addWithCarry (x y : Word) (carry : Bool) : Word × Flags :=
  let sum := x.toNat + y.toNat + carry.toNat
  let result := BitVec.ofNat 32 sum
  (result,
    { n := result.msb
      z := result == 0
      c := decide (2 ^ 32 ≤ sum)
      v := x.msb == y.msb && result.msb != x.msb })

/-- The difference of two words, as a sum with the complement. -/
def subWithFlags (x y : Word) : Word × Flags := addWithCarry x (~~~y) true

@[simp] theorem addWithCarry_false_fst (x y : Word) : (addWithCarry x y false).1 = x + y := by
  apply BitVec.eq_of_toNat_eq
  simp [addWithCarry]

@[simp] theorem subWithFlags_fst (x y : Word) : (subWithFlags x y).1 = x - y := by
  apply BitVec.eq_of_toNat_eq
  have hy := y.isLt
  simp only [subWithFlags, addWithCarry, BitVec.toNat_ofNat, BitVec.toNat_not, BitVec.toNat_sub,
    Bool.toNat_true]
  congr 1
  omega

/-- After a comparison the carry flag says whether the first word is not below the second. -/
@[simp] theorem subWithFlags_c (x y : Word) :
    (subWithFlags x y).2.c = decide (y.toNat ≤ x.toNat) := by
  have hy := y.isLt
  simp only [subWithFlags, addWithCarry, BitVec.toNat_not, Bool.toNat_true, decide_eq_decide]
  omega

/-- After a subtraction the zero flag says whether the words are equal. -/
@[simp] theorem subWithFlags_z (x y : Word) : (subWithFlags x y).2.z = (x - y == 0) := by
  have hfst : (subWithFlags x y).2.z = ((subWithFlags x y).1 == 0) := rfl
  rw [hfst, subWithFlags_fst]

/-! ## Execution -/

namespace State

/-- Write a register and go on with the next instruction. -/
def setReg (s : State) (r : Reg) (w : Word) : State :=
  { s with regs := Function.update s.regs r w, pc := s.pc + 1 }

/-- Write a register and the flags, and go on with the next instruction. -/
def setResult (s : State) (r : Reg) (result : Word × Flags) : State :=
  { s with regs := Function.update s.regs r result.1, flags := result.2, pc := s.pc + 1 }

/-- Store a word and go on with the next instruction. -/
def store (s : State) (a w : Word) : State :=
  { s with mem := writeWord s.mem a w, pc := s.pc + 1 }

/-- Go to a target if a condition holds, else to the next instruction. -/
def branch (s : State) (condition : Bool) (target : ℕ) : State :=
  { s with pc := if condition then target else s.pc + 1 }

end State

/-- Execute one instruction: `none` when control leaves the program. -/
def exec (i : Instr) (s : State) : Option State :=
  match i with
  | .ldrLit rt w => some (s.setReg rt w)
  | .ldr rt rn rm => some (s.setReg rt (readWord s.mem (s.regs rn + s.regs rm)))
  | .str rt rn rm => some (s.store (s.regs rn + s.regs rm) (s.regs rt))
  | .strBase rt rn => some (s.store (s.regs rn) (s.regs rt))
  | .movs rd imm =>
      some (s.setResult rd (imm, { s.flags with n := imm.msb, z := imm == 0 }))
  | .adds rd rn rm => some (s.setResult rd (addWithCarry (s.regs rn) (s.regs rm) false))
  | .addsImm rd rn imm => some (s.setResult rd (addWithCarry (s.regs rn) imm false))
  | .subsImm rd rn imm => some (s.setResult rd (subWithFlags (s.regs rn) imm))
  | .cmp rn rm =>
      some { s with flags := (subWithFlags (s.regs rn) (s.regs rm)).2, pc := s.pc + 1 }
  | .b target => some (s.branch true target)
  | .bcc target => some (s.branch (!s.flags.c) target)
  | .bne target => some (s.branch (!s.flags.z) target)
  | .bl _ => none
  | .bxLr => none

/-- Execute the instruction at the program counter. -/
def step (prog : List Instr) (s : State) : Option State := prog[s.pc]?.bind fun i => exec i s

/-- `n` instructions of the program lead from one state to another. -/
inductive Steps (prog : List Instr) : ℕ → State → State → Prop
  | refl (s : State) : Steps prog 0 s s
  | head {n : ℕ} {s t u : State} : step prog s = some t → Steps prog n t u →
      Steps prog (n + 1) s u

namespace Steps

variable {prog : List Instr}

/-- Runs compose. -/
theorem trans {n k : ℕ} {s t u : State} (h : Steps prog n s t) (h' : Steps prog k t u) :
    Steps prog (n + k) s u := by
  induction h with
  | refl => rwa [Nat.zero_add]
  | @head n s t u hs _ ih =>
      rw [Nat.add_right_comm]
      exact .head hs (ih h')

/-- **The loop rule.** If the body of a loop runs `n` instructions and carries an invariant from
`k + 1` rounds left to `k` rounds left, the loop runs all its rounds. -/
theorem loop {n : ℕ} {I : ℕ → State → Prop}
    (hbody : ∀ k s, I (k + 1) s → ∃ t, Steps prog n s t ∧ I k t) (k : ℕ) {s : State} (h : I k s) :
    ∃ t, Steps prog (k * n) s t ∧ I 0 t := by
  induction k generalizing s with
  | zero =>
      rw [Nat.zero_mul]
      exact ⟨s, .refl s, h⟩
  | succ k ih =>
      obtain ⟨t, ht, hinv⟩ := hbody k s h
      obtain ⟨u, hu, hend⟩ := ih hinv
      refine ⟨u, ?_, hend⟩
      rw [Nat.succ_mul, Nat.add_comm]
      exact ht.trans hu

end Steps

end Thumb
