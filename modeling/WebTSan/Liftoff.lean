import WebTSan.BulkMemory

/-!
# The code that Liftoff generates for atomic operations

For an atomic operation on a shared memory, Liftoff generates code that checks the index, performs
the operation, and calls `Runtime_WasmTraceMemory` with the offset of the access. The operation and
the trace compute this offset separately: an index that is a constant and statically in bounds is
folded into the offset, other indices stay in a register, and on ia32 a compare-exchange adds the
index to the start of the memory. The code is run here on a machine with named registers. It is
generated for the flag `--wasm_tsan`.

The emitters of the assembler for the atomic instructions are not part of the repository. They
access the address that their operands add up to. What they leave in the registers is a parameter
here. The trace reads the register of the index after the instruction. The compiler passes it as
pinned to the emitters of loads and stores; for binops and compare-exchanges it collects it in
`outer_pinned` as well, but their emitters have no such parameter. So it depends on the emitter
whether the trace of an operation still finds the index there.

## Main definitions

* `WebTSan.Instr`, `WebTSan.WasmInstance.exec`: instructions and what they do.
* `WebTSan.WasmInstance.boundsCheckMem`, `indexStaticallyInBounds`, `traceMemoryOperation`,
  `atomicOperation`: the parts of the compiler.
* `WebTSan.WasmInstance.HoldsIndex`: what a slot of the value stack stands for.
* `WebTSan.WasmInstance.LeavesIndex`: the trace finds the index where it was before the instruction.

## Main results

* `WebTSan.WasmInstance.execAll_boundsCheckMem`: what the checks let through.
* `WebTSan.WasmInstance.execAll_traceMemoryOperation`: the offset that is traced.
* `WebTSan.WasmInstance.atomicOperation_traced_iff`: when exactly it is the offset that is accessed.
* `WebTSan.WasmInstance.leavesIndex_of_keepsPinned`: loads and stores depend on the pinned registers
  only.
-/

namespace WebTSan

/-! ### The machine -/

/-- The processors that Liftoff generates code for, as far as they differ here. -/
inductive Arch
  | ia32
  | other32
  | arch64
deriving DecidableEq

/-- The number of bits of a pointer and of a register. -/
def Arch.pointerBits : Arch → ℕ
  | ia32 | other32 => 32
  | arch64 => 64

/-- `kNeedI64RegPair`: a 64-bit value takes two registers. -/
def Arch.kNeedI64RegPair : Arch → Bool
  | ia32 | other32 => true
  | arch64 => false

/-- The registers that the code for one operation uses at the same time. -/
inductive Register
  | index
  /-- The upper half of a register pair. -/
  | indexHigh
  | address
  | endOffset
  | memSize
  | addr
  | effectiveOffset
deriving DecidableEq

/-- The fields of `MemoryTracingInfo` that matter for atomic operations. -/
structure MemoryTracingInfo where
  offset : ℕ
  memIndex : ℕ
  isStore : ℕ
  isAtomic : ℕ

/-- A field of `MemoryTracingInfo`. -/
inductive InfoField
  | offset
  | memIndex
  | isStore
  | isAtomic

/-- The atomic operations. -/
inductive AtomicKind
  | load
  | store
  | binop
  | compareExchange
deriving DecidableEq

/-- The calls of the assembler that make up the code of an operation. -/
inductive Instr
  | loadConstant (dst : Register) (value : ℕ)
  | emitI32Add (dst lhs rhs : Register)
  | emitI64Add (dst lhs rhs : Register)
  | emitI32Addi (dst lhs : Register) (imm : ℕ)
  | emitI32Andi (dst lhs : Register) (imm : ℕ)
  | emitPtrsizeSub (dst lhs rhs : Register)
  | emitU32ToUintptr (dst src : Register)
  | emitI64UConvertI32 (dst src : Register)
  /-- Trap if the first register is at least the second one, as unsigned pointers. -/
  | trapIfGreaterThanEqual (lhs rhs : Register)
  /-- Trap if the lower 32 bits of the register are not zero. -/
  | trapIfNotZero (reg : Register)
  | loadMemorySize (dst : Register)
  | loadMemoryStart (dst : Register)
  /-- The atomic instruction, on the sum of a register, possibly an index register, and an offset,
  with the registers that its emitter gets as pinned. -/
  | atomic (kind : AtomicKind) (dstAddr : Register) (index : Option Register) (offset : ℕ)
    (pinned : List Register)
  /-- Store a register to a field of the struct on the stack. -/
  | storeInfo (field : InfoField) (src : Register)
  /-- Call `Runtime_WasmTraceMemory` with the struct on the stack. -/
  | callWasmTraceMemory

/-- The registers, the struct on the stack, and what has been accessed and traced so far. -/
structure LiftoffMachine where
  regs : Register → ℕ
  info : MemoryTracingInfo
  accesses : List (AtomicKind × ℕ)
  traced : List MemoryTracingInfo

/-- Write one register. -/
def LiftoffMachine.setReg (m : LiftoffMachine) (r : Register) (value : ℕ) : LiftoffMachine :=
  { m with regs := Function.update m.regs r value }

/-- Write one field of the struct on the stack. -/
def LiftoffMachine.setInfo (m : LiftoffMachine) (field : InfoField) (value : ℕ) :
    LiftoffMachine :=
  match field with
  | .offset => { m with info := { m.info with offset := value } }
  | .memIndex => { m with info := { m.info with memIndex := value } }
  | .isStore => { m with info := { m.info with isStore := value } }
  | .isAtomic => { m with info := { m.info with isAtomic := value } }

/-- The memory as the compiler knows it. -/
structure WasmMemory where
  index : ℕ
  isMemory64 : Bool
  minMemorySize : ℕ

/-- A memory at run time. It is at least as long as the compiler knows, and its end fits into a
pointer. -/
structure WasmInstance where
  arch : Arch
  memory : WasmMemory
  memoryStart : ℕ
  memorySize : ℕ
  minMemorySize_le : memory.minMemorySize ≤ memorySize
  memoryStart_pos : 0 < memoryStart
  end_le : memoryStart + memorySize ≤ 2 ^ arch.pointerBits
  memorySize_le : memory.isMemory64 = false → memorySize ≤ 2 ^ 32
  /-- What the emitter of an atomic instruction, with some registers pinned, leaves in them. -/
  atomicRegs : AtomicKind → List Register → (Register → ℕ) → Register → ℕ

namespace WasmInstance

variable (inst : WasmInstance)

/-- What an instruction does, if it does not trap. -/
def exec (m : LiftoffMachine) : Instr → Option LiftoffMachine
  | .loadConstant dst value => some (m.setReg dst value)
  | .emitI32Add dst lhs rhs => some (m.setReg dst ((m.regs lhs + m.regs rhs) % 2 ^ 32))
  | .emitI64Add dst lhs rhs => some (m.setReg dst ((m.regs lhs + m.regs rhs) % 2 ^ 64))
  | .emitI32Addi dst lhs imm => some (m.setReg dst ((m.regs lhs + imm) % 2 ^ 32))
  | .emitI32Andi dst lhs imm => some (m.setReg dst (m.regs lhs % 2 ^ 32 &&& imm))
  | .emitPtrsizeSub dst lhs rhs =>
    some (m.setReg dst ((m.regs lhs + (2 ^ inst.arch.pointerBits - m.regs rhs)) %
      2 ^ inst.arch.pointerBits))
  | .emitU32ToUintptr dst src => some (m.setReg dst (m.regs src % 2 ^ 32))
  | .emitI64UConvertI32 dst src => some (m.setReg dst (m.regs src % 2 ^ 32))
  | .trapIfGreaterThanEqual lhs rhs => if m.regs lhs ≥ m.regs rhs then none else some m
  | .trapIfNotZero reg => if m.regs reg % 2 ^ 32 ≠ 0 then none else some m
  | .loadMemorySize dst => some (m.setReg dst inst.memorySize)
  | .loadMemoryStart dst => some (m.setReg dst inst.memoryStart)
  | .atomic kind dstAddr index offset pinned =>
    some { m with
      regs := inst.atomicRegs kind pinned m.regs
      accesses := m.accesses ++
        [(kind, (m.regs dstAddr + index.elim 0 m.regs + offset) % 2 ^ inst.arch.pointerBits)] }
  | .storeInfo field src => some (m.setInfo field (m.regs src))
  | .callWasmTraceMemory => some { m with traced := m.traced ++ [m.info] }

/-! ### The compiler -/

/-- The slot of the index on the value stack: a constant that fits into 32 bits, or a register or
stack slot with a value that is known at run time only. -/
inductive IndexSlot
  | const (value : BitVec 32)
  | dynamic

/-- `IndexStaticallyInBounds`: the offset with the index folded in. -/
def indexStaticallyInBounds (slot : IndexSlot) (accessSize offset : ℕ) : Option ℕ :=
  match slot with
  | .dynamic => none
  | .const value =>
    -- sign-extend to restore the index of a 64-bit memory, zero-extend otherwise
    let index := if inst.memory.isMemory64 then (value.signExtend inst.arch.pointerBits).toNat
      else value.toNat
    let effectiveOffset := (index + offset) % 2 ^ inst.arch.pointerBits
    if effectiveOffset < index || !isInBounds effectiveOffset accessSize inst.memory.minMemorySize
    then none else some effectiveOffset

/-- `IndexStaticallyInBoundsAndAligned`. -/
def indexStaticallyInBoundsAndAligned (slot : IndexSlot) (accessSize offset : ℕ) : Option ℕ :=
  match inst.indexStaticallyInBounds slot accessSize offset with
  | some newOffset => if newOffset % accessSize = 0 then some newOffset else none
  | none => none

/-- `PopToRegister` for the index. -/
def popIndexToRegister : IndexSlot → List Instr
  | .dynamic => []
  | .const value =>
    if !inst.memory.isMemory64 then [.loadConstant .index value.toNat]
    else if inst.arch.kNeedI64RegPair then
      [.loadConstant .index ((value.signExtend 64).toNat % 2 ^ 32),
        .loadConstant .indexHigh ((value.signExtend 64).toNat / 2 ^ 32)]
    else [.loadConstant .index (value.signExtend 64).toNat]

/-- `AlignmentCheckMem`. -/
def alignmentCheckMem (accessSize offset : ℕ) : List Instr :=
  if accessSize = 1 then []
  else
    let alignMask := accessSize - 1
    if offset &&& alignMask = 0 then
      [.emitI32Andi .address .index alignMask, .trapIfNotZero .address]
    else
      [.emitI32Addi .address .index (offset % 2 ^ 32), .emitI32Andi .address .address alignMask,
        .trapIfNotZero .address]

/-- The part of `BoundsCheckMem` that makes a pointer of the index. The upper half of a pair has to
be zero. -/
def convertIndex : List Instr :=
  if !inst.memory.isMemory64 then [.emitU32ToUintptr .index .index]
  else if inst.arch.kNeedI64RegPair then [.trapIfNotZero .indexHigh]
  else []

/-- The part of `BoundsCheckMem` that compares the index with the size of the memory. -/
def compareIndex (endOffset : ℕ) : List Instr :=
  [.loadMemorySize .memSize, .loadConstant .endOffset endOffset] ++
    (if endOffset > inst.memory.minMemorySize then [.trapIfGreaterThanEqual .endOffset .memSize]
      else []) ++
    [.emitPtrsizeSub .endOffset .memSize .endOffset, .trapIfGreaterThanEqual .index .endOffset]

/-- `BoundsCheckMem` with `kDoForceCheck` and `kCheckAlignment`. The index is in the register
`index` afterwards. -/
def boundsCheckMem (accessSize offset : ℕ) : List Instr :=
  let endOffset := (offset + accessSize - 1) % 2 ^ inst.arch.pointerBits
  alignmentCheckMem accessSize offset ++ inst.convertIndex ++ inst.compareIndex endOffset

/-- The part of `TraceMemoryOperation` that computes the effective offset. The offset is a 32-bit
number unless the memory has 64-bit indices and the registers 64 bits. -/
def computeEffectiveOffset (index : Option Register) (offset : ℕ) : List Instr :=
  (if inst.memory.isMemory64 && !inst.arch.kNeedI64RegPair then
      .loadConstant .effectiveOffset (offset % 2 ^ 64) ::
        index.toList.map (.emitI64Add .effectiveOffset .effectiveOffset ·)
    else
      .loadConstant .effectiveOffset (offset % 2 ^ 32) ::
        index.toList.map (.emitI32Add .effectiveOffset .effectiveOffset ·)) ++
    (if inst.arch.pointerBits = 64 && !inst.memory.isMemory64 then
      [.emitI64UConvertI32 .effectiveOffset .effectiveOffset] else [])

/-- `TraceMemoryOperation` for an atomic operation. -/
def traceMemoryOperation (isStore : Bool) (index : Option Register) (offset : ℕ) : List Instr :=
  inst.computeEffectiveOffset index offset ++
    [.storeInfo .offset .effectiveOffset,
      .loadConstant .effectiveOffset inst.memory.index, .storeInfo .memIndex .effectiveOffset,
      .loadConstant .effectiveOffset isStore.toNat, .storeInfo .isStore .effectiveOffset,
      .loadConstant .effectiveOffset 1, .storeInfo .isAtomic .effectiveOffset,
      .callWasmTraceMemory]

/-- The registers that an emitter gets as pinned: `outer_pinned` for a store, and `pinned` for a
load. -/
def pinnedRegisters : AtomicKind → Option Register → List Register
  | .store, index => index.toList
  | .load, index => .addr :: index.toList
  -- `outer_pinned` is filled, and not passed on
  | .binop, _ | .compareExchange, _ => []

/-- The code in front of the atomic instruction, for an index in a register. -/
def beforeAtomic (accessSize immOffset : ℕ) (slot : IndexSlot) : List Instr :=
  inst.popIndexToRegister slot ++ inst.boundsCheckMem accessSize immOffset ++
    [.loadMemoryStart .addr]

/-- The common code of `AtomicStoreMem`, `AtomicLoadMem`, `AtomicBinop` and, except on ia32,
`AtomicCompareExchange`. -/
def atomicMem (kind : AtomicKind) (isStore : Bool) (accessSize immOffset : ℕ) (slot : IndexSlot) :
    List Instr :=
  let offset := immOffset % 2 ^ inst.arch.pointerBits
  match inst.indexStaticallyInBoundsAndAligned slot accessSize offset with
  | some offset =>
    [.loadMemoryStart .addr, .atomic kind .addr none offset (pinnedRegisters kind none)] ++
      inst.traceMemoryOperation isStore none offset
  | none =>
    inst.beforeAtomic accessSize immOffset slot ++
      [.atomic kind .addr (some .index) offset (pinnedRegisters kind (some .index))] ++
      inst.traceMemoryOperation isStore (some .index) offset

def atomicStoreMem (accessSize immOffset : ℕ) (slot : IndexSlot) : List Instr :=
  inst.atomicMem .store true accessSize immOffset slot

def atomicLoadMem (accessSize immOffset : ℕ) (slot : IndexSlot) : List Instr :=
  inst.atomicMem .load false accessSize immOffset slot

def atomicBinop (accessSize immOffset : ℕ) (slot : IndexSlot) : List Instr :=
  inst.atomicMem .binop true accessSize immOffset slot

/-- `AtomicCompareExchange`. On ia32 the address is computed first, and the register of the index is
used for other values then. -/
def atomicCompareExchange (accessSize immOffset : ℕ) (slot : IndexSlot) : List Instr :=
  match inst.arch with
  | .ia32 =>
    let offset := immOffset % 2 ^ inst.arch.pointerBits
    inst.popIndexToRegister slot ++ inst.boundsCheckMem accessSize immOffset ++
      [.loadMemoryStart .addr, .emitI32Add .addr .addr .index,
        .atomic .compareExchange .addr none offset []] ++
      inst.traceMemoryOperation true none offset
  | _ => inst.atomicMem .compareExchange true accessSize immOffset slot

/-- The code of an atomic operation. -/
def atomicOperation : AtomicKind → (accessSize immOffset : ℕ) → IndexSlot → List Instr
  | .load => inst.atomicLoadMem
  | .store => inst.atomicStoreMem
  | .binop => inst.atomicBinop
  | .compareExchange => inst.atomicCompareExchange

/-! ### What the code does -/

/-- The location that `Runtime_WasmTraceMemory` passes to the hook of an atomic operation. -/
def location (info : MemoryTracingInfo) : ℕ := inst.memoryStart + info.offset

/-- The registers hold the index: a 32-bit index in the lower half of a register, a 64-bit index in
one register or in a pair. -/
def RegsHold (m : LiftoffMachine) (index : ℕ) : Prop :=
  if !inst.memory.isMemory64 then m.regs .index % 2 ^ 32 = index
  else if inst.arch.kNeedI64RegPair then
    m.regs .index < 2 ^ 32 ∧ m.regs .index + 2 ^ 32 * m.regs .indexHigh = index
  else m.regs .index = index

/-- The emitters of the atomic instructions keep the registers that they get as pinned. -/
def KeepsPinned : Prop :=
  ∀ kind pinned regs, ∀ r ∈ pinned, inst.atomicRegs kind pinned regs r = regs r

/-- The number of bits that `TraceMemoryOperation` computes the offset with. -/
def offsetBits : ℕ := if inst.memory.isMemory64 && !inst.arch.kNeedI64RegPair then 64 else 32

/-- The trace finds the index where it was before the instruction: it has been folded into the
offset, or the emitter leaves it in its register, as far as the trace reads this register. -/
def LeavesIndex (m : LiftoffMachine) (kind : AtomicKind) (accessSize immOffset : ℕ)
    (slot : IndexSlot) : Prop :=
  inst.indexStaticallyInBoundsAndAligned slot accessSize
      (immOffset % 2 ^ inst.arch.pointerBits) = none →
    ∀ m₁, execAll inst.exec m (inst.beforeAtomic accessSize immOffset slot) = some m₁ →
      inst.atomicRegs kind (pinnedRegisters kind (some .index)) m₁.regs .index ≡
        m₁.regs .index [MOD 2 ^ inst.offsetBits]

/-- The slot on the value stack stands for the index. -/
def HoldsIndex (m : LiftoffMachine) (slot : IndexSlot) (index : ℕ) : Prop :=
  match slot with
  | .const value =>
    if !inst.memory.isMemory64 then value.toNat = index else (value.signExtend 64).toNat = index
  | .dynamic => inst.RegsHold m index

section Run

variable {inst} {m : LiftoffMachine}

@[simp] theorem setReg_regs_self (r : Register) (value : ℕ) : (m.setReg r value).regs r = value :=
  Function.update_self ..

theorem setReg_regs_of_ne {r r' : Register} (h : r' ≠ r) (value : ℕ) :
    (m.setReg r value).regs r' = m.regs r' :=
  Function.update_of_ne h ..

@[simp] theorem setReg_setReg (r : Register) (value value' : ℕ) :
    (m.setReg r value).setReg r value' = m.setReg r value' := by
  simp [LiftoffMachine.setReg]

@[simp] theorem setReg_accesses (r : Register) (value : ℕ) :
    (m.setReg r value).accesses = m.accesses := rfl

@[simp] theorem setReg_traced (r : Register) (value : ℕ) :
    (m.setReg r value).traced = m.traced := rfl

theorem memorySize_lt : inst.memorySize < 2 ^ inst.arch.pointerBits := by
  have h₁ := inst.memoryStart_pos
  have h₂ := inst.end_le
  omega

theorem memorySize_le_offsetBits : inst.memorySize ≤ 2 ^ inst.offsetBits := by
  have hlt := inst.memorySize_lt
  have hle := inst.memorySize_le
  cases hm : inst.memory.isMemory64 <;> cases ha : inst.arch <;>
    simp [offsetBits, hm, ha, Arch.kNeedI64RegPair, Arch.pointerBits] at hlt hle ⊢ <;> omega

/-- The effective offset is the sum of the index register and the offset. -/
theorem execAll_computeEffectiveOffset {index : Option Register}
    (hi : index = none ∨ index = some .index) (offset : ℕ) :
    execAll inst.exec m (inst.computeEffectiveOffset index offset) =
      some (m.setReg .effectiveOffset ((index.elim 0 m.regs + offset) % 2 ^ inst.offsetBits)) := by
  have hreg (value : ℕ) : (m.setReg .effectiveOffset value).regs .index = m.regs .index :=
    setReg_regs_of_ne (by decide) value
  cases hm : inst.memory.isMemory64 <;> cases ha : inst.arch <;> rcases hi with rfl | rfl <;>
    simp [computeEffectiveOffset, offsetBits, hm, ha, Arch.kNeedI64RegPair, Arch.pointerBits,
      execAll, exec, hreg, Nat.add_comm]

/-- The code of a trace calls the runtime function with the effective offset. -/
theorem execAll_traceMemoryOperation (isStore : Bool) {index : Option Register}
    (hi : index = none ∨ index = some .index) (offset : ℕ) :
    ∃ m', execAll inst.exec m (inst.traceMemoryOperation isStore index offset) = some m' ∧
      m'.accesses = m.accesses ∧ m'.traced = m.traced ++
        [⟨(index.elim 0 m.regs + offset) % 2 ^ inst.offsetBits, inst.memory.index, isStore.toNat,
          1⟩] := by
  rw [traceMemoryOperation, execAll_append, execAll_computeEffectiveOffset hi offset]
  exact ⟨_, rfl, rfl, rfl⟩

/-- Popping the index leaves it in the registers. -/
theorem execAll_popIndexToRegister {slot : IndexSlot} {index : ℕ}
    (h : inst.HoldsIndex m slot index) :
    ∃ m', execAll inst.exec m (inst.popIndexToRegister slot) = some m' ∧
      inst.RegsHold m' index ∧ m'.accesses = m.accesses ∧ m'.traced = m.traced := by
  cases slot with
  | dynamic => exact ⟨m, rfl, h, rfl, rfl⟩
  | const value =>
    have hlt : (value.signExtend 64).toNat < 2 ^ 64 := (value.signExtend 64).isLt
    cases hm : inst.memory.isMemory64 with
    | false =>
      have hvalue : value.toNat = index := by simpa [HoldsIndex, hm] using h
      refine ⟨m.setReg .index value.toNat, by simp [popIndexToRegister, hm, execAll, exec], ?_,
        rfl, rfl⟩
      have hlt' := value.isLt
      simp only [RegsHold, hm, Bool.not_false, if_true, setReg_regs_self]
      omega
    | true =>
      have hvalue : (value.signExtend 64).toNat = index := by simpa [HoldsIndex, hm] using h
      cases hp : inst.arch.kNeedI64RegPair with
      | false =>
        refine ⟨m.setReg .index (value.signExtend 64).toNat,
          by simp [popIndexToRegister, hm, hp, execAll, exec], ?_, rfl, rfl⟩
        simpa [RegsHold, hm, hp] using hvalue
      | true =>
        refine ⟨(m.setReg .index ((value.signExtend 64).toNat % 2 ^ 32)).setReg .indexHigh
          ((value.signExtend 64).toNat / 2 ^ 32),
          by simp [popIndexToRegister, hm, hp, execAll, exec], ?_, rfl, rfl⟩
        simp only [RegsHold, hm, hp, Bool.not_true, Bool.false_eq_true, if_false, if_true,
          setReg_regs_self]
        rw [setReg_regs_of_ne (by decide), setReg_regs_self]
        omega

/-- What the lower half of the index register says about the index. -/
theorem RegsHold.mod_eq {index : ℕ} (h : inst.RegsHold m index) :
    m.regs .index % 2 ^ 32 = index % 2 ^ 32 := by
  unfold RegsHold at h
  split_ifs at h <;> omega

/-- Masking the lower half of a register with `2 ^ k - 1` gives the rest modulo `2 ^ k`. -/
theorem and_mask_eq (k : Fin 4) (value : ℕ) :
    value % 2 ^ 32 &&& 2 ^ (k : ℕ) - 1 = value % 2 ^ (k : ℕ) := by
  rw [Nat.and_two_pow_sub_one_eq_mod, Nat.mod_mod_of_dvd _ (Nat.pow_dvd_pow 2 (by omega))]

/-- A trap on a masked register. -/
theorem execAll_trapIfNotZero (k : Fin 4) (value : ℕ) :
    execAll inst.exec (m.setReg .address (value % 2 ^ (k : ℕ))) [.trapIfNotZero .address] =
      if value % 2 ^ (k : ℕ) = 0 then some (m.setReg .address (value % 2 ^ (k : ℕ))) else none := by
  have hlt : value % 2 ^ (k : ℕ) < 2 ^ 32 :=
    (Nat.mod_lt _ (Nat.two_pow_pos _)).trans_le (Nat.pow_le_pow_right (by omega) (by omega))
  simp only [execAll, exec, setReg_regs_self, Nat.mod_eq_of_lt hlt]
  by_cases h : value % 2 ^ (k : ℕ) = 0 <;> simp [h]

/-- The alignment check lets exactly the aligned accesses through, and uses one other register. -/
theorem execAll_alignmentCheckMem (k : Fin 4) (offset : ℕ) :
    ∃ value, execAll inst.exec m (alignmentCheckMem (2 ^ (k : ℕ)) offset) =
      if (m.regs .index + offset) % 2 ^ (k : ℕ) = 0 then some (m.setReg .address value)
      else none := by
  by_cases hone : 2 ^ (k : ℕ) = 1
  · refine ⟨m.regs .address, ?_⟩
    rw [alignmentCheckMem, if_pos hone, hone, Nat.mod_one, if_pos rfl, LiftoffMachine.setReg,
      Function.update_eq_self]
    rfl
  · by_cases hoffset : offset &&& 2 ^ (k : ℕ) - 1 = 0
    · -- the offset is aligned, and the index alone decides
      have hcode : alignmentCheckMem (2 ^ (k : ℕ)) offset =
          [.emitI32Andi .address .index (2 ^ (k : ℕ) - 1), .trapIfNotZero .address] := by
        simp only [alignmentCheckMem, if_neg hone, if_pos hoffset]
      have hsum : (m.regs .index + offset) % 2 ^ (k : ℕ) = m.regs .index % 2 ^ (k : ℕ) := by
        rw [Nat.and_two_pow_sub_one_eq_mod] at hoffset
        rw [Nat.add_mod, hoffset, Nat.add_zero, Nat.mod_mod]
      refine ⟨m.regs .index % 2 ^ (k : ℕ), ?_⟩
      rw [hcode, hsum, execAll, exec, and_mask_eq]
      exact execAll_trapIfNotZero k _
    · have hcode : alignmentCheckMem (2 ^ (k : ℕ)) offset =
          [.emitI32Addi .address .index (offset % 2 ^ 32),
            .emitI32Andi .address .address (2 ^ (k : ℕ) - 1), .trapIfNotZero .address] := by
        simp only [alignmentCheckMem, if_neg hone, if_neg hoffset]
      have hsum : (m.regs .index + offset % 2 ^ 32) % 2 ^ 32 % 2 ^ (k : ℕ) =
          (m.regs .index + offset) % 2 ^ (k : ℕ) := by
        rw [Nat.mod_mod_of_dvd _ (Nat.pow_dvd_pow 2 (by omega)), Nat.add_mod,
          Nat.mod_mod_of_dvd _ (Nat.pow_dvd_pow 2 (by omega)), ← Nat.add_mod]
      refine ⟨(m.regs .index + offset) % 2 ^ (k : ℕ), ?_⟩
      rw [hcode, execAll, exec, Option.bind_some, execAll, exec, Option.bind_some,
        setReg_regs_self, setReg_setReg, and_mask_eq, hsum]
      exact execAll_trapIfNotZero k _

/-- The index becomes a pointer, if it fits into one. -/
theorem execAll_convertIndex {index : ℕ} (h : inst.RegsHold m index)
    (hlt : index < 2 ^ inst.arch.pointerBits) :
    ∃ m' : LiftoffMachine, execAll inst.exec m inst.convertIndex = some m' ∧
      m'.regs .index = index ∧ m'.accesses = m.accesses ∧ m'.traced = m.traced := by
  unfold convertIndex
  unfold RegsHold at h
  cases hm : inst.memory.isMemory64 with
  | false =>
    simp only [hm, Bool.not_false, if_true] at h ⊢
    exact ⟨m.setReg .index (m.regs .index % 2 ^ 32), rfl, by rw [setReg_regs_self, h], rfl, rfl⟩
  | true =>
    cases hp : inst.arch.kNeedI64RegPair with
    | false =>
      simp only [hm, hp, Bool.not_true, Bool.false_eq_true, if_false] at h ⊢
      exact ⟨m, rfl, h, rfl, rfl⟩
    | true =>
      simp only [hm, hp, Bool.not_true, Bool.false_eq_true, if_false, if_true] at h ⊢
      have hbits : inst.arch.pointerBits = 32 := by
        cases ha : inst.arch <;> simp_all [Arch.kNeedI64RegPair, Arch.pointerBits]
      rw [hbits] at hlt
      have hhigh : m.regs .indexHigh = 0 := by omega
      refine ⟨m, by simp [execAll, exec, hhigh], by omega, rfl, rfl⟩

/-- The comparison lets an index through for which the access is in bounds. -/
theorem execAll_compareIndex {index endOffset : ℕ} (h : m.regs .index = index)
    (hb : index + endOffset < inst.memorySize) :
    ∃ m' : LiftoffMachine, execAll inst.exec m (inst.compareIndex endOffset) = some m' ∧
      m'.regs .index = index ∧ m'.accesses = m.accesses ∧ m'.traced = m.traced := by
  have hlt := inst.memorySize_lt
  let m₁ := (m.setReg .memSize inst.memorySize).setReg .endOffset endOffset
  have hsize : m₁.regs .memSize = inst.memorySize := by
    rw [setReg_regs_of_ne (by decide), setReg_regs_self]
  have hindex : m₁.regs .index = index := by
    rw [setReg_regs_of_ne (by decide), setReg_regs_of_ne (by decide), h]
  have hcheck : execAll inst.exec m₁ (if endOffset > inst.memory.minMemorySize then
      [.trapIfGreaterThanEqual .endOffset .memSize] else []) = some m₁ := by
    split_ifs
    · have hge : ¬m₁.regs .endOffset ≥ m₁.regs .memSize := by
        rw [hsize, setReg_regs_self]
        omega
      simp only [execAll, exec, if_neg hge, Option.bind_some]
    · rfl
  -- the subtraction does not wrap around
  have hsub : (inst.memorySize + (2 ^ inst.arch.pointerBits - endOffset)) %
      2 ^ inst.arch.pointerBits = inst.memorySize - endOffset := by
    rw [show inst.memorySize + (2 ^ inst.arch.pointerBits - endOffset) =
      inst.memorySize - endOffset + 2 ^ inst.arch.pointerBits by omega, Nat.add_mod_right,
      Nat.mod_eq_of_lt (by omega)]
  have hlast : ¬(m₁.setReg .endOffset (inst.memorySize - endOffset)).regs .index ≥
      (m₁.setReg .endOffset (inst.memorySize - endOffset)).regs .endOffset := by
    rw [setReg_regs_self, setReg_regs_of_ne (by decide), hindex]
    omega
  refine ⟨m₁.setReg .endOffset (inst.memorySize - endOffset), ?_, ?_, rfl, rfl⟩
  · have hload : execAll inst.exec m
        [.loadMemorySize .memSize, .loadConstant .endOffset endOffset] = some m₁ := rfl
    rw [compareIndex, execAll_append, execAll_append, hload, Option.bind_some, hcheck,
      Option.bind_some, execAll, exec, hsize, setReg_regs_self, hsub, Option.bind_some, execAll,
      exec, if_neg hlast]
    rfl
  · rw [setReg_regs_of_ne (by decide), hindex]

/-- The checks let exactly the aligned accesses in bounds through. They leave the index in its
register, and access and trace nothing. -/
theorem execAll_boundsCheckMem (k : Fin 4) {index offset : ℕ} (h : inst.RegsHold m index)
    (hb : index + offset + 2 ^ (k : ℕ) ≤ inst.memorySize) :
    ∃ m' : LiftoffMachine, execAll inst.exec m (inst.boundsCheckMem (2 ^ (k : ℕ)) offset) =
        (if (index + offset) % 2 ^ (k : ℕ) = 0 then some m' else none) ∧
      m'.regs .index = index ∧ m'.accesses = m.accesses ∧ m'.traced = m.traced := by
  have hlt := inst.memorySize_lt
  have hpos : 0 < 2 ^ (k : ℕ) := Nat.two_pow_pos _
  obtain ⟨value, halign⟩ : ∃ value, execAll inst.exec m (alignmentCheckMem (2 ^ (k : ℕ)) offset) =
      if (m.regs .index + offset) % 2 ^ (k : ℕ) = 0 then some (m.setReg .address value)
      else none := execAll_alignmentCheckMem k offset
  have h₁ : inst.RegsHold (m.setReg .address value) index := by
    unfold RegsHold at h ⊢
    rwa [setReg_regs_of_ne (by decide), setReg_regs_of_ne (by decide)]
  obtain ⟨m₂, hm₂, hi₂, ha₂, ht₂⟩ := execAll_convertIndex h₁ (by omega)
  have hend : index + (offset + 2 ^ (k : ℕ) - 1) % 2 ^ inst.arch.pointerBits <
      inst.memorySize := by
    rw [Nat.mod_eq_of_lt (by omega)]
    omega
  obtain ⟨m₃, hm₃, hi₃, ha₃, ht₃⟩ := execAll_compareIndex hi₂ hend
  refine ⟨m₃, ?_, hi₃, ha₃.trans ha₂, ht₃.trans ht₂⟩
  have hmod : (m.regs .index + offset) % 2 ^ (k : ℕ) = (index + offset) % 2 ^ (k : ℕ) := by
    have hdvd : 2 ^ (k : ℕ) ∣ 2 ^ 32 := Nat.pow_dvd_pow 2 (by omega)
    rw [Nat.add_mod, ← Nat.mod_mod_of_dvd (m.regs .index) hdvd, h.mod_eq,
      Nat.mod_mod_of_dvd _ hdvd, ← Nat.add_mod]
  rw [boundsCheckMem, execAll_append, execAll_append, halign, hmod]
  split_ifs
  · rw [Option.bind_some, hm₂, Option.bind_some, hm₃]
  · rfl

/-- Code behind the checks of an index on the value stack runs if and only if the access is
aligned. -/
theorem execAll_checked (k : Fin 4) {immOffset index : ℕ} {slot : IndexSlot}
    (h : inst.HoldsIndex m slot index) (hb : index + immOffset + 2 ^ (k : ℕ) ≤ inst.memorySize) :
    ∃ m₁ : LiftoffMachine, m₁.regs .index = index ∧ m₁.accesses = m.accesses ∧
      m₁.traced = m.traced ∧ ∀ {code : List Instr} {m₂ : LiftoffMachine},
        execAll inst.exec m₁ code = some m₂ →
        execAll inst.exec m (inst.popIndexToRegister slot ++
          inst.boundsCheckMem (2 ^ (k : ℕ)) immOffset ++ code) =
            if (index + immOffset) % 2 ^ (k : ℕ) = 0 then some m₂ else none := by
  obtain ⟨m₀, hm₀, hr₀, ha₀, ht₀⟩ := execAll_popIndexToRegister h
  obtain ⟨m₁, hm₁, hi₁, ha₁, ht₁⟩ := execAll_boundsCheckMem k hr₀ hb
  refine ⟨m₁, hi₁, ha₁.trans ha₀, ht₁.trans ht₀, fun hcode ↦ ?_⟩
  rw [execAll_append, execAll_append, hm₀, Option.bind_some, hm₁]
  split_ifs
  · rw [Option.bind_some, hcode]
  · rfl

/-- `IndexStaticallyInBoundsAndAligned` folds the index in only if the sum is aligned. -/
theorem indexStaticallyInBoundsAndAligned_eq_some {slot : IndexSlot}
    {accessSize offset newOffset : ℕ}
    (h : inst.indexStaticallyInBoundsAndAligned slot accessSize offset = some newOffset) :
    inst.indexStaticallyInBounds slot accessSize offset = some newOffset ∧
      newOffset % accessSize = 0 := by
  unfold indexStaticallyInBoundsAndAligned at h
  split at h
  · next offset' hoffset' =>
    split_ifs at h with hmod
    obtain rfl := Option.some.inj h
    exact ⟨hoffset', hmod⟩
  · cases h

/-- An index that is folded into the offset gives the sum of both. -/
theorem eq_of_indexStaticallyInBounds {slot : IndexSlot} {accessSize index offset newOffset : ℕ}
    (h : inst.HoldsIndex m slot index) (hb : index + offset < inst.memorySize)
    (hs : inst.indexStaticallyInBounds slot accessSize offset = some newOffset) :
    newOffset = index + offset := by
  have hlt := inst.memorySize_lt
  cases slot with
  | dynamic => cases hs
  | const value =>
    have hindex : (if inst.memory.isMemory64 then (value.signExtend inst.arch.pointerBits).toNat
        else value.toNat) = index := by
      cases hm : inst.memory.isMemory64 with
      | false => simpa [HoldsIndex, hm] using h
      | true =>
        have hvalue : (value.signExtend 64).toNat = index := by simpa [HoldsIndex, hm] using h
        rw [if_pos rfl]
        have hbits : inst.arch.pointerBits = 64 ∨ inst.arch.pointerBits = 32 := by
          cases inst.arch <;> simp [Arch.pointerBits]
        rcases hbits with hbits | hbits
        · rw [hbits, hvalue]
        · -- an index that fits into 32 bits is not negative
          rw [hbits] at hlt ⊢
          rw [BitVec.toNat_signExtend] at hvalue ⊢
          split_ifs at hvalue ⊢ with hmsb <;>
            simp only [BitVec.toNat_setWidth, BitVec.setWidth_eq] at hvalue ⊢ <;> omega
    simp only [indexStaticallyInBounds, hindex, Nat.mod_eq_of_lt (hb.trans hlt)] at hs
    split_ifs at hs
    exact (Option.some.inj hs).symm

/-- Code of an operation whose last part is the trace. -/
theorem execAll_append_trace {code : List Instr} {m' : LiftoffMachine} {aligned : Prop}
    [Decidable aligned] (isStore : Bool) {index : Option Register} (offset : ℕ)
    (hcode : execAll inst.exec m code = if aligned then some m' else none)
    (hi : index = none ∨ index = some .index) :
    ∃ m'', execAll inst.exec m (code ++ inst.traceMemoryOperation isStore index offset) =
        (if aligned then some m'' else none) ∧
      m''.accesses = m'.accesses ∧ m''.traced = m'.traced ++
        [⟨(index.elim 0 m'.regs + offset) % 2 ^ inst.offsetBits, inst.memory.index, isStore.toNat,
          1⟩] := by
  obtain ⟨m'', hm'', ha, ht⟩ := execAll_traceMemoryOperation isStore hi offset
  refine ⟨m'', ?_, ha, ht⟩
  rw [execAll_append, hcode]
  split_ifs
  · rw [Option.bind_some, hm'']
  · rfl

/-- An address in the memory does not wrap around. -/
theorem address_mod_eq {offset : ℕ} (h : offset < inst.memorySize) :
    (inst.memoryStart + offset) % 2 ^ inst.arch.pointerBits = inst.memoryStart + offset :=
  Nat.mod_eq_of_lt (by have := inst.end_le; omega)

/-- An offset in the memory fits into the bits that a trace computes with. -/
theorem offset_mod_eq {offset : ℕ} (h : offset < inst.memorySize) :
    offset % 2 ^ inst.offsetBits = offset :=
  Nat.mod_eq_of_lt (h.trans_le inst.memorySize_le_offsetBits)

/-- The atomic instruction on the start of the memory, an index register and an offset. -/
theorem exec_atomic {m : LiftoffMachine} (haddr : m.regs .addr = inst.memoryStart)
    (kind : AtomicKind) (pinned : List Register) (index : Option Register) (offset : ℕ)
    (h : index.elim 0 m.regs + offset < inst.memorySize) :
    ∃ m', execAll inst.exec m [.atomic kind .addr index offset pinned] = some m' ∧
      m'.regs = inst.atomicRegs kind pinned m.regs ∧ m'.traced = m.traced ∧
      m'.accesses = m.accesses ++
        [(kind, inst.memoryStart + (index.elim 0 m.regs + offset))] := by
  refine ⟨_, rfl, rfl, rfl, ?_⟩
  rw [haddr, Nat.add_assoc, address_mod_eq h]

/-- The code in front of the instruction runs if and only if the access is aligned. -/
theorem execAll_beforeAtomic (k : Fin 4) {immOffset index : ℕ} {slot : IndexSlot}
    (h : inst.HoldsIndex m slot index) (hb : index + immOffset + 2 ^ (k : ℕ) ≤ inst.memorySize) :
    ∃ m₁ : LiftoffMachine, m₁.regs .addr = inst.memoryStart ∧ m₁.regs .index = index ∧
      m₁.accesses = m.accesses ∧ m₁.traced = m.traced ∧
      execAll inst.exec m (inst.beforeAtomic (2 ^ (k : ℕ)) immOffset slot) =
        if (index + immOffset) % 2 ^ (k : ℕ) = 0 then some m₁ else none := by
  obtain ⟨m₁, hi₁, ha₁, ht₁, hchecked⟩ := execAll_checked k h hb
  exact ⟨m₁.setReg .addr inst.memoryStart, setReg_regs_self _ _,
    (setReg_regs_of_ne (by decide) _).trans hi₁, ha₁, ht₁, hchecked rfl⟩

/-- The code of the operations that do not add the index to the start of the memory. If it does not
trap, it traces the sum of the index and the offset exactly if the index is left where it was. -/
theorem execAll_atomicMem (kind : AtomicKind) (isStore : Bool) (k : Fin 4) {immOffset index : ℕ}
    {slot : IndexSlot} (h : inst.HoldsIndex m slot index)
    (hb : index + immOffset + 2 ^ (k : ℕ) ≤ inst.memorySize) :
    ∃ m' offset, execAll inst.exec m (inst.atomicMem kind isStore (2 ^ (k : ℕ)) immOffset slot) =
        (if (index + immOffset) % 2 ^ (k : ℕ) = 0 then some m' else none) ∧
      m'.accesses = m.accesses ++ [(kind, inst.memoryStart + (index + immOffset))] ∧
      m'.traced = m.traced ++ [⟨offset, inst.memory.index, isStore.toNat, 1⟩] ∧
      (inst.LeavesIndex m kind (2 ^ (k : ℕ)) immOffset slot ↔
        ((index + immOffset) % 2 ^ (k : ℕ) = 0 → offset = index + immOffset)) := by
  have hlt := inst.memorySize_lt
  have hpos : 0 < 2 ^ (k : ℕ) := Nat.two_pow_pos _
  have himm : immOffset % 2 ^ inst.arch.pointerBits = immOffset := Nat.mod_eq_of_lt (by omega)
  have hsum : index + immOffset < inst.memorySize := by omega
  simp only [atomicMem, LeavesIndex, himm]
  cases hs : inst.indexStaticallyInBoundsAndAligned slot (2 ^ (k : ℕ)) immOffset with
  | some offset =>
    -- the index is folded into the offset
    obtain ⟨hstatic, haligned⟩ := indexStaticallyInBoundsAndAligned_eq_some hs
    obtain rfl := eq_of_indexStaticallyInBounds h hsum hstatic
    obtain ⟨m', hm', -, ht, ha⟩ := exec_atomic (m := m.setReg .addr inst.memoryStart)
      (setReg_regs_self _ _) kind (pinnedRegisters kind none) none (index + immOffset)
      (by rwa [Option.elim_none, Nat.zero_add])
    have hcode : execAll inst.exec m [.loadMemoryStart .addr,
        .atomic kind .addr none (index + immOffset) (pinnedRegisters kind none)] =
        if (index + immOffset) % 2 ^ (k : ℕ) = 0 then some m' else none := by
      rw [if_pos haligned]
      exact hm'
    obtain ⟨m'', hm'', ha', ht'⟩ :=
      execAll_append_trace isStore (index + immOffset) hcode (.inl rfl)
    rw [Option.elim_none, Nat.zero_add] at ha ht'
    rw [offset_mod_eq hsum] at ht'
    exact ⟨m'', _, hm'', ha'.trans ha, ht'.trans (congrArg (· ++ _) ht), by simp⟩
  | none =>
    -- the index is in a register
    obtain ⟨m₁, haddr₁, hi₁, ha₁, ht₁, hm₁⟩ := execAll_beforeAtomic k h hb
    obtain ⟨m₂, hm₂, hr₂, ht₂, ha₂⟩ := exec_atomic haddr₁ kind
      (pinnedRegisters kind (some .index)) (some .index) immOffset
      (by rwa [Option.elim_some, hi₁])
    have hcode : execAll inst.exec m (inst.beforeAtomic (2 ^ (k : ℕ)) immOffset slot ++
        [.atomic kind .addr (some .index) immOffset (pinnedRegisters kind (some .index))]) =
        if (index + immOffset) % 2 ^ (k : ℕ) = 0 then some m₂ else none := by
      rw [execAll_append, hm₁]
      split_ifs
      · exact hm₂
      · rfl
    obtain ⟨m₃, hm₃, ha₃, ht₃⟩ := execAll_append_trace isStore immOffset hcode (.inr rfl)
    rw [Option.elim_some, hi₁] at ha₂
    rw [Option.elim_some, hr₂] at ht₃
    refine ⟨m₃, _, hm₃, by rw [ha₃, ha₂, ha₁], by rw [ht₃, ht₂, ht₁], ?_⟩
    rw [hm₁]
    by_cases haligned : (index + immOffset) % 2 ^ (k : ℕ) = 0
    · have hmod := offset_mod_eq hsum
      simp only [haligned, if_true, Option.some.injEq, forall_eq', forall_const, hi₁]
      constructor
      · intro hleaves
        exact Eq.trans (hleaves.add_right immOffset) hmod
      · intro hoffset
        exact Nat.ModEq.add_right_cancel' immOffset (hoffset.trans hmod.symm)
    · simp [haligned]

/-- On ia32 a compare-exchange accesses the right address, and traces the offset without the
index. -/
theorem execAll_atomicCompareExchange_ia32 (ha : inst.arch = .ia32) (k : Fin 4)
    {immOffset index : ℕ} {slot : IndexSlot} (h : inst.HoldsIndex m slot index)
    (hb : index + immOffset + 2 ^ (k : ℕ) ≤ inst.memorySize) :
    ∃ m', execAll inst.exec m (inst.atomicCompareExchange (2 ^ (k : ℕ)) immOffset slot) =
        (if (index + immOffset) % 2 ^ (k : ℕ) = 0 then some m' else none) ∧
      m'.accesses = m.accesses ++ [(.compareExchange, inst.memoryStart + (index + immOffset))] ∧
      m'.traced = m.traced ++ [⟨immOffset, inst.memory.index, 1, 1⟩] := by
  have hlt := inst.memorySize_lt
  have hpos : 0 < 2 ^ (k : ℕ) := Nat.two_pow_pos _
  have hend := inst.end_le
  have hbits : inst.arch.pointerBits = 32 := by rw [ha]; rfl
  simp only [atomicCompareExchange, ha,
    Nat.mod_eq_of_lt (show immOffset < 2 ^ Arch.ia32.pointerBits by rw [ha] at hlt; omega)]
  obtain ⟨m₁, hi₁, ha₁, ht₁, hchecked⟩ := execAll_checked k h hb
  -- the index is part of the address from here on
  obtain ⟨m₂, hm₂, ht₂, ha₂⟩ : ∃ m₂, execAll inst.exec m₁ [.loadMemoryStart .addr,
      .emitI32Add .addr .addr .index, .atomic .compareExchange .addr none immOffset []] = some m₂ ∧
      m₂.traced = m₁.traced ∧ m₂.accesses = m₁.accesses ++
        [(.compareExchange, inst.memoryStart + (index + immOffset))] := by
    refine ⟨_, rfl, rfl, ?_⟩
    have hindex : (m₁.setReg .addr inst.memoryStart).regs .index = index := by
      rw [setReg_regs_of_ne (by decide), hi₁]
    rw [hbits] at hend
    rw [setReg_regs_self, setReg_regs_self, hindex, hbits, Nat.mod_eq_of_lt (by omega),
      Option.elim_none, Nat.add_zero, Nat.mod_eq_of_lt (by omega), Nat.add_assoc]
    rfl
  obtain ⟨m₃, hm₃, ha₃, ht₃⟩ := execAll_append_trace true immOffset (hchecked hm₂) (.inl rfl)
  rw [Option.elim_none, Nat.zero_add, offset_mod_eq (by omega)] at ht₃
  exact ⟨m₃, hm₃, by rw [ha₃, ha₂, ha₁], by rw [ht₃, ht₂, ht₁]; rfl⟩

/-- The emitters of loads and stores get the register of the index as pinned. -/
theorem leavesIndex_of_keepsPinned (hkeep : inst.KeepsPinned) {kind : AtomicKind}
    (hkind : kind = .load ∨ kind = .store) (accessSize immOffset : ℕ) (slot : IndexSlot) :
    inst.LeavesIndex m kind accessSize immOffset slot := by
  intro _ m₁ _
  have hpinned : Register.index ∈ pinnedRegisters kind (some .index) := by
    rcases hkind with rfl | rfl <;> decide
  rw [hkeep kind _ m₁.regs _ hpinned]

variable (inst m) in
/-- The operation calls the runtime function once, with the sum of the index and the static offset,
and the location that this gives is the address that it accesses. -/
def TracesAccess (kind : AtomicKind) (accessSize immOffset : ℕ) (slot : IndexSlot) (index : ℕ) :
    Prop :=
  ∀ m', execAll inst.exec m (inst.atomicOperation kind accessSize immOffset slot) = some m' →
    ∃ info, m'.traced = m.traced ++ [info] ∧ info.offset = index + immOffset ∧
      m'.accesses = m.accesses ++ [(kind, inst.location info)]

/-- What the code of an atomic operation traces is what it accesses exactly if it is no
compare-exchange on ia32 with an index, and the index is left where it was. -/
theorem execAll_atomicOperation (kind : AtomicKind) (k : Fin 4) {immOffset index : ℕ}
    {slot : IndexSlot} (h : inst.HoldsIndex m slot index)
    (hb : index + immOffset + 2 ^ (k : ℕ) ≤ inst.memorySize) :
    ∃ m' offset isStore,
      execAll inst.exec m (inst.atomicOperation kind (2 ^ (k : ℕ)) immOffset slot) =
        (if (index + immOffset) % 2 ^ (k : ℕ) = 0 then some m' else none) ∧
      m'.accesses = m.accesses ++ [(kind, inst.memoryStart + (index + immOffset))] ∧
      m'.traced = m.traced ++ [⟨offset, inst.memory.index, isStore, 1⟩] ∧
      ((if inst.arch = .ia32 ∧ kind = .compareExchange then
          (index + immOffset) % 2 ^ (k : ℕ) = 0 → index = 0
        else inst.LeavesIndex m kind (2 ^ (k : ℕ)) immOffset slot) ↔
        ((index + immOffset) % 2 ^ (k : ℕ) = 0 → offset = index + immOffset)) := by
  by_cases hc : inst.arch = .ia32 ∧ kind = .compareExchange
  · obtain ⟨ha, rfl⟩ := hc
    obtain ⟨m', hm', hm'a, hm't⟩ := execAll_atomicCompareExchange_ia32 ha k h hb
    refine ⟨m', _, 1, hm', hm'a, hm't, ?_⟩
    rw [if_pos ⟨ha, rfl⟩]
    exact imp_congr_right fun _ ↦ by omega
  · have hcode : inst.atomicOperation kind (2 ^ (k : ℕ)) immOffset slot =
        inst.atomicMem kind (kind ≠ .load) (2 ^ (k : ℕ)) immOffset slot := by
      cases kind with
      | load => rfl
      | store => rfl
      | binop => rfl
      | compareExchange =>
        cases ha : inst.arch with
        | ia32 => exact absurd ⟨ha, rfl⟩ hc
        | other32 => simp [atomicOperation, atomicCompareExchange, ha]
        | arch64 => simp [atomicOperation, atomicCompareExchange, ha]
    obtain ⟨m', offset, hm', hm'a, hm't, hleaves⟩ := execAll_atomicMem kind (kind ≠ .load) k h hb
    rw [if_neg hc, hcode]
    exact ⟨m', offset, _, hm', hm'a, hm't, hleaves⟩

/-- An atomic operation in bounds traps if and only if it is not aligned. If it does not trap, then
it traces what it accesses exactly if, for a compare-exchange on ia32, the index is 0, and for any
other operation, the emitter of the instruction leaves the index where it was. -/
theorem atomicOperation_traced_iff (kind : AtomicKind) (k : Fin 4) {immOffset index : ℕ}
    {slot : IndexSlot} (h : inst.HoldsIndex m slot index)
    (hb : index + immOffset + 2 ^ (k : ℕ) ≤ inst.memorySize) :
    ((execAll inst.exec m (inst.atomicOperation kind (2 ^ (k : ℕ)) immOffset slot)).isSome ↔
      (index + immOffset) % 2 ^ (k : ℕ) = 0) ∧
    (inst.TracesAccess m kind (2 ^ (k : ℕ)) immOffset slot index ↔
      if inst.arch = .ia32 ∧ kind = .compareExchange then
        (index + immOffset) % 2 ^ (k : ℕ) = 0 → index = 0
      else inst.LeavesIndex m kind (2 ^ (k : ℕ)) immOffset slot) := by
  obtain ⟨m', offset, isStore, hm', ha, ht, hcond⟩ := execAll_atomicOperation kind k h hb
  rw [hcond]
  constructor
  · rw [hm']
    split_ifs with haligned <;> simp [haligned]
  constructor
  · intro htraces haligned
    obtain ⟨info, hinfo, hoffset, -⟩ := htraces m' (by rw [hm', if_pos haligned])
    rw [ht, List.append_cancel_left_eq, List.cons.injEq] at hinfo
    rwa [← hinfo.1] at hoffset
  · intro hoffset m'' hm''
    rw [hm'] at hm''
    split_ifs at hm'' with haligned
    obtain rfl := Option.some.inj hm''
    rw [hoffset haligned] at ht
    exact ⟨_, ht, rfl, ha⟩

end Run

end WasmInstance

/-- A memory of one page, on a given processor. -/
def onePage (arch : Arch) : WasmInstance where
  arch := arch
  memory := ⟨0, false, 65536⟩
  memoryStart := 4096
  memorySize := 65536
  minMemorySize_le := le_rfl
  memoryStart_pos := by decide
  end_le := by cases arch <;> decide
  memorySize_le _ := by decide
  atomicRegs _ _ regs := regs

/-- A machine with the index 8. -/
def indexEight : LiftoffMachine := ⟨fun r ↦ if r = .index then 8 else 0, ⟨0, 0, 0, 0⟩, [], []⟩

theorem compareExchange_arch64_traced :
    (execAll (onePage .arch64).exec indexEight
      ((onePage .arch64).atomicOperation .compareExchange (2 ^ 2) 4 .dynamic)).isSome ∧
    (onePage .arch64).TracesAccess indexEight .compareExchange (2 ^ 2) 4 .dynamic 8 := by
  obtain ⟨hsome, htraces⟩ := WasmInstance.atomicOperation_traced_iff .compareExchange 2
    (show (onePage .arch64).HoldsIndex indexEight .dynamic 8 from rfl)
    (show 8 + 4 + 2 ^ 2 ≤ (onePage .arch64).memorySize by decide)
  exact ⟨hsome.mpr rfl, htraces.mpr (by rw [if_neg (by decide)]; exact fun _ _ _ ↦ rfl)⟩

/-- On ia32, a compare-exchange of the cell at 12 with index 8 traces offset 4. -/
theorem compareExchange_ia32_not_traced :
    (onePage .ia32).HoldsIndex indexEight .dynamic 8 ∧
      8 + 4 + 2 ^ 2 ≤ (onePage .ia32).memorySize ∧
      ¬(onePage .ia32).TracesAccess indexEight .compareExchange (2 ^ 2) 4 .dynamic 8 := by
  refine ⟨rfl, by decide, fun htraces ↦ ?_⟩
  obtain ⟨info, hinfo, hoffset, -⟩ := htraces _ rfl
  rw [← (List.cons.inj hinfo).1] at hoffset
  exact absurd hoffset (by decide)

end WebTSan
