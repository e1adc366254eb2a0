import WebTSan.VClock

/-!
# The sync addresses of typed array elements

The builtins of `Atomics` pass the array and the index of an element to a runtime function, the
index as a Smi. The runtime function takes it back as an `int` and computes the address that the
detector uses as the key of the element. The access itself, `Atomics.wait` and `Atomics.notify`, and
the trace of wasm compute the address of the element without a Smi. Words of the machine are bit
vectors here, so that every conversion is the one of the source.

## Main definitions

* `WebTSan.ElementsKind`, `WebTSan.TypedArray`.
* `WebTSan.smiTag`, `WebTSan.smiValueAt`: an index on its way through a Smi.
* `WebTSan.runtimeWebTSanAtomicsLoad`, `runtimeWebTSanAtomicsStore`, `runtimeWebTSanAtomicsRMW`.
* `WebTSan.TypedArray.OneKey`: all paths use the address of the element.

## Main results

* `WebTSan.TypedArray.key_eq_accessedAddress_iff`: which elements have their address as the key.
* `WebTSan.TypedArray.key_eq_key_iff`: which elements share a key.
* `WebTSan.TypedArray.oneKey_iff`: when exactly all paths agree on the key of an element.
-/

namespace WebTSan

/-! ### Typed arrays -/

/-- The elements kinds that `ValidateIntegerTypedArray` accepts. -/
inductive ElementsKind
  | int8
  | uint8
  | int16
  | uint16
  | int32
  | uint32
  | bigInt64
  | bigUint64
deriving DecidableEq

/-- By how many bits the builtins shift the index of an element. -/
def ElementsKind.shift : ElementsKind → ℕ
  | int8 | uint8 => 0
  | int16 | uint16 => 1
  | int32 | uint32 => 2
  | bigInt64 | bigUint64 => 3

/-- `element_size`. -/
def ElementsKind.elementSize (kind : ElementsKind) : ℕ := 2 ^ kind.shift

/-- `JSArrayBuffer::kMaxByteLength`, the largest safe integer. -/
def kMaxByteLength : ℕ := 2 ^ 53 - 1

/-- A typed array with its buffer. The elements lie in the buffer, and the buffer lies in the
address space. -/
structure TypedArray where
  kind : ElementsKind
  isShared : Bool
  backingStore : ℕ
  byteLength : ℕ
  byteOffset : ℕ
  length : ℕ
  end_le : byteOffset + length * kind.elementSize ≤ byteLength
  byteLength_le : byteLength ≤ kMaxByteLength
  backingStore_add_le : backingStore + byteLength ≤ 2 ^ 64

/-! ### Smis -/

/-- The number of bits of the integer in a Smi. -/
def kSmiValueSize (pointerCompression : Bool) : ℕ := if pointerCompression then 31 else 32

/-- The integer in the Smi that `SmiTag(Signed(index_word))` gives. -/
def smiTag (pointerCompression : Bool) (indexWord : BitVec 64) :
    BitVec (kSmiValueSize pointerCompression) :=
  indexWord.setWidth _

/-- `smi_value_at`, which returns an `int`. -/
def smiValueAt {bits : ℕ} (smi : BitVec bits) : BitVec 32 := smi.signExtend 32

/-! ### The runtime functions -/

/-- The hooks of `web_tsan_hooks.h` for atomic operations. -/
inductive AtomicsHook
  | load
  | store
  | rmw
deriving DecidableEq

/-- A call of a hook. -/
structure HookCall where
  hook : AtomicsHook
  tid : ℕ
  location : BitVec 64
deriving DecidableEq

/-- The flag and the callbacks that the runtime functions look at. -/
structure AtomicsCallbacks where
  wasmTsan : Bool
  /-- Whether the callback of a hook is registered. -/
  registered : AtomicsHook → Bool
  getCurrentTid : Option ℕ

/-- `GetTid`. -/
def AtomicsCallbacks.getTid (callbacks : AtomicsCallbacks) : ℕ :=
  callbacks.getCurrentTid.getD uint32Max

/-- The flag is on, all callbacks are registered, and the thread has a slot. -/
structure AtomicsCallbacks.Active (callbacks : AtomicsCallbacks) (tid : ℕ) : Prop where
  wasmTsan : callbacks.wasmTsan = true
  registered (hook : AtomicsHook) : callbacks.registered hook = true
  getCurrentTid : callbacks.getCurrentTid = some tid
  tid_ne : tid ≠ uint32Max

namespace TypedArray

variable (array : TypedArray)

/-- The location that the runtime functions compute from the `int` of an index. -/
def syncAddress (index : BitVec 32) : BitVec 64 :=
  BitVec.ofNat 64 array.backingStore + BitVec.ofNat 64 array.byteOffset +
    index.signExtend 64 * BitVec.ofNat 64 array.kind.elementSize

end TypedArray

/-- The common code of the runtime functions, up to the report of a pending race. -/
def runtimeWebTSanAtomics (hook : AtomicsHook) (callbacks : AtomicsCallbacks) (array : TypedArray)
    {bits : ℕ} (smi : BitVec bits) : Option HookCall :=
  if !callbacks.wasmTsan || !callbacks.registered hook then none
  else
    let index := smiValueAt smi
    if !array.isShared then none
    else
      let tid := callbacks.getTid
      if tid = uint32Max then none
      else some { hook := hook, tid := tid, location := array.syncAddress index }

/-- `Runtime_WebTSanAtomicsLoad`. -/
def runtimeWebTSanAtomicsLoad (callbacks : AtomicsCallbacks) (array : TypedArray) {bits : ℕ}
    (smi : BitVec bits) : Option HookCall :=
  runtimeWebTSanAtomics .load callbacks array smi

/-- `Runtime_WebTSanAtomicsStore`. -/
def runtimeWebTSanAtomicsStore (callbacks : AtomicsCallbacks) (array : TypedArray) {bits : ℕ}
    (smi : BitVec bits) : Option HookCall :=
  runtimeWebTSanAtomics .store callbacks array smi

/-- `Runtime_WebTSanAtomicsRMW`. -/
def runtimeWebTSanAtomicsRMW (callbacks : AtomicsCallbacks) (array : TypedArray) {bits : ℕ}
    (smi : BitVec bits) : Option HookCall :=
  runtimeWebTSanAtomics .rmw callbacks array smi

/-! ### The other paths -/

/-- `ToWaitLocation`: the start of the buffer and a position in it. -/
def toWaitLocation (backingStore addr : BitVec 64) : BitVec 64 := backingStore + addr

/-- The location that `Runtime_WasmTraceMemory` computes. -/
def wasmTraceLocation (tsanBackingStore tsanOffset : BitVec 64) : BitVec 64 :=
  tsanBackingStore + tsanOffset

namespace TypedArray

/-- The address that a builtin accesses: `ValidateIntegerTypedArray` adds the offset of the array to
the start of the buffer, and the index is shifted. -/
def accessedAddress (array : TypedArray) (indexWord : BitVec 64) : BitVec 64 :=
  BitVec.ofNat 64 array.backingStore + BitVec.ofNat 64 array.byteOffset +
    indexWord <<< array.kind.shift

/-- The position of an element in the buffer. -/
def elementOffset (array : TypedArray) (index : ℕ) : ℕ :=
  array.byteOffset + index * array.kind.elementSize

/-- The address of an element. -/
def elementAddress (array : TypedArray) (index : ℕ) : ℕ :=
  array.backingStore + array.elementOffset index

/-- The key of an element for the detector. -/
def key (array : TypedArray) (pointerCompression : Bool) (index : ℕ) : BitVec 64 :=
  array.syncAddress (smiValueAt (smiTag pointerCompression (BitVec.ofNat 64 index)))

/-- All paths use the address of the element: the hooks, the access, the list of waiters, and the
trace of wasm for the same byte. -/
structure OneKey (array : TypedArray) (callbacks : AtomicsCallbacks) (pointerCompression : Bool)
    (tid index : ℕ) : Prop where
  hook (hook : AtomicsHook) : ∃ location,
    runtimeWebTSanAtomics hook callbacks array
      (smiTag pointerCompression (BitVec.ofNat 64 index)) = some ⟨hook, tid, location⟩ ∧
    location.toNat = array.elementAddress index
  access : (array.accessedAddress (BitVec.ofNat 64 index)).toNat = array.elementAddress index
  wait : (toWaitLocation (BitVec.ofNat 64 array.backingStore)
    (BitVec.ofNat 64 (array.elementOffset index))).toNat = array.elementAddress index
  wasm : (wasmTraceLocation (BitVec.ofNat 64 array.backingStore)
    (BitVec.ofNat 64 (array.elementOffset index))).toNat = array.elementAddress index

variable {array : TypedArray} {pointerCompression : Bool} {index : ℕ}

/-- The end of an element lies in the buffer. -/
theorem elementOffset_lt (h : index < array.length) :
    array.elementOffset index + array.kind.elementSize ≤ array.byteLength := by
  have hmul : (index + 1) * array.kind.elementSize ≤ array.length * array.kind.elementSize :=
    Nat.mul_le_mul_right _ h
  have hend := array.end_le
  rw [Nat.add_mul, Nat.one_mul] at hmul
  unfold elementOffset
  omega

/-- The key is the start of the array plus the value of the Smi times the size. -/
theorem key_eq (index : ℕ) : array.key pointerCompression index =
    BitVec.ofNat 64 array.backingStore + BitVec.ofNat 64 array.byteOffset +
      BitVec.ofInt 64 ((index : ℤ).bmod (2 ^ kSmiValueSize pointerCompression) *
        array.kind.elementSize) := by
  have hbits : kSmiValueSize pointerCompression ≤ 32 := by
    cases pointerCompression <;> decide
  have hvalue : (smiValueAt (smiTag pointerCompression (BitVec.ofNat 64 index))).toInt =
      (index : ℤ).bmod (2 ^ kSmiValueSize pointerCompression) := by
    rw [smiValueAt, BitVec.toInt_signExtend_of_le hbits, smiTag,
      BitVec.setWidth_ofNat_of_le (by omega), BitVec.toInt_ofNat']
  rw [key, syncAddress, BitVec.signExtend, hvalue, BitVec.ofInt_mul]
  rfl

/-- The size of an element as a word. -/
theorem twoPow_shift (kind : ElementsKind) :
    BitVec.twoPow 64 kind.shift = BitVec.ofNat 64 kind.elementSize := by
  cases kind <;> rfl

/-- The word of the access is the start of the array plus the index times the size. -/
theorem accessedAddress_eq (index : ℕ) : array.accessedAddress (BitVec.ofNat 64 index) =
    BitVec.ofNat 64 array.backingStore + BitVec.ofNat 64 array.byteOffset +
      BitVec.ofInt 64 ((index : ℤ) * array.kind.elementSize) := by
  rw [accessedAddress, BitVec.shiftLeft_eq_mul_twoPow, twoPow_shift, BitVec.ofInt_mul]
  rfl

/-- The access is to the address of the element. -/
theorem toNat_accessedAddress (h : index < array.length) :
    (array.accessedAddress (BitVec.ofNat 64 index)).toNat = array.elementAddress index := by
  have hlt := elementOffset_lt h
  have hfits := array.backingStore_add_le
  have hpos : 0 < array.kind.elementSize := Nat.two_pow_pos _
  have hword : array.accessedAddress (BitVec.ofNat 64 index) =
      BitVec.ofNat 64 (array.elementAddress index) := by
    rw [accessedAddress, BitVec.shiftLeft_eq_mul_twoPow, twoPow_shift, elementAddress,
      elementOffset, ← Nat.add_assoc, BitVec.ofNat_add, BitVec.ofNat_add, BitVec.ofNat_mul]
  rw [hword, BitVec.toNat_ofNat, Nat.mod_eq_of_lt]
  unfold elementAddress
  omega

/-- Different indices that fit into 60 bits give different multiples of the size. -/
theorem ofInt_mul_elementSize_inj (kind : ElementsKind) {x y : ℤ} (hx : |x| < 2 ^ 60)
    (hy : |y| < 2 ^ 60) : BitVec.ofInt 64 (x * kind.elementSize) =
      BitVec.ofInt 64 (y * kind.elementSize) ↔ x = y := by
  rw [abs_lt] at hx hy
  refine ⟨fun h ↦ ?_, fun h ↦ by rw [h]⟩
  have h' := congrArg BitVec.toInt h
  have hself {z : ℤ} (hz : -2 ^ 60 < z ∧ z < 2 ^ 60) :
      (BitVec.ofInt 64 (z * kind.elementSize)).toInt = z * kind.elementSize := by
    apply BitVec.toInt_ofInt_eq_self (by decide) <;>
      · cases kind <;> simp only [ElementsKind.elementSize, ElementsKind.shift] <;> omega
  rw [hself hx, hself hy] at h'
  have hpos : (0 : ℤ) < kind.elementSize := by exact_mod_cast Nat.two_pow_pos _
  exact mul_right_cancel₀ hpos.ne' h'

/-- The value of a Smi is small. -/
theorem abs_bmod_lt (index : ℕ) :
    |(index : ℤ).bmod (2 ^ kSmiValueSize pointerCompression)| < 2 ^ 60 := by
  rw [abs_lt, Int.bmod_def]
  cases pointerCompression <;> simp only [kSmiValueSize] <;> split_ifs <;> omega

/-- The Smi keeps an index if and only if its sign bit stays free. -/
theorem bmod_eq_self_iff (index : ℕ) :
    (index : ℤ).bmod (2 ^ kSmiValueSize pointerCompression) = index ↔
      index < 2 ^ (kSmiValueSize pointerCompression - 1) := by
  rw [Int.bmod_def]
  cases pointerCompression <;> simp only [kSmiValueSize] <;> split_ifs <;> omega

/-- Two indices give the same Smi if and only if their lower bits agree. -/
theorem bmod_eq_bmod_iff (i j : ℕ) :
    (i : ℤ).bmod (2 ^ kSmiValueSize pointerCompression) =
        (j : ℤ).bmod (2 ^ kSmiValueSize pointerCompression) ↔
      i % 2 ^ kSmiValueSize pointerCompression = j % 2 ^ kSmiValueSize pointerCompression := by
  rw [Int.bmod_def, Int.bmod_def]
  cases pointerCompression <;> simp only [kSmiValueSize] <;> split_ifs <;> omega

/-- An index of an array is far from the size of a word. -/
theorem abs_index_lt (h : index < array.length) : |(index : ℤ)| < 2 ^ 60 := by
  have hlt := elementOffset_lt h
  have hle := array.byteLength_le
  have hmul : index ≤ index * array.kind.elementSize :=
    Nat.le_mul_of_pos_right _ (Nat.two_pow_pos _)
  unfold elementOffset at hlt
  unfold kMaxByteLength at hle
  rw [abs_lt]
  omega

/-- An element has its address as its key if and only if its index fits into a Smi. -/
theorem key_eq_accessedAddress_iff (h : index < array.length) :
    array.key pointerCompression index = array.accessedAddress (BitVec.ofNat 64 index) ↔
      index < 2 ^ (kSmiValueSize pointerCompression - 1) := by
  rw [key_eq, accessedAddress_eq, BitVec.add_right_inj,
    ofInt_mul_elementSize_inj _ (abs_bmod_lt index) (abs_index_lt h), bmod_eq_self_iff]

/-- Two elements of an array share a key if and only if the lower bits of their indices agree. -/
theorem key_eq_key_iff (i j : ℕ) :
    array.key pointerCompression i = array.key pointerCompression j ↔
      i % 2 ^ kSmiValueSize pointerCompression = j % 2 ^ kSmiValueSize pointerCompression := by
  rw [key_eq, key_eq, BitVec.add_right_inj,
    ofInt_mul_elementSize_inj _ (abs_bmod_lt i) (abs_bmod_lt j), bmod_eq_bmod_iff]

/-- The wait location and the location of wasm are the address of the element. -/
theorem toNat_add_elementOffset (h : index < array.length) :
    (BitVec.ofNat 64 array.backingStore + BitVec.ofNat 64 (array.elementOffset index)).toNat =
      array.elementAddress index := by
  have hlt := elementOffset_lt h
  have hfits := array.backingStore_add_le
  have hpos : 0 < array.kind.elementSize := Nat.two_pow_pos _
  rw [← BitVec.ofNat_add, BitVec.toNat_ofNat]
  unfold elementAddress
  exact Nat.mod_eq_of_lt (by omega)

/-- While the hooks are active, a runtime function passes the key of the element on. -/
theorem runtimeWebTSanAtomics_eq {callbacks : AtomicsCallbacks} {tid : ℕ}
    (hc : callbacks.Active tid) (hs : array.isShared = true) (hook : AtomicsHook) (index : ℕ) :
    runtimeWebTSanAtomics hook callbacks array
        (smiTag pointerCompression (BitVec.ofNat 64 index)) =
      some ⟨hook, tid, array.key pointerCompression index⟩ := by
  simp [runtimeWebTSanAtomics, AtomicsCallbacks.getTid, hc.wasmTsan, hc.registered,
    hc.getCurrentTid, hc.tid_ne, hs, key]

/-- All paths agree on the key of an element if and only if its index fits into a Smi, and two
elements of an array share a key if and only if the lower bits of their indices agree. -/
theorem oneKey_iff {callbacks : AtomicsCallbacks} {tid : ℕ} (hc : callbacks.Active tid)
    (hs : array.isShared = true) (pointerCompression : Bool) (h : index < array.length) :
    (array.OneKey callbacks pointerCompression tid index ↔
      index < 2 ^ (kSmiValueSize pointerCompression - 1)) ∧
    ∀ j, array.key pointerCompression index = array.key pointerCompression j ↔
      index % 2 ^ kSmiValueSize pointerCompression = j % 2 ^ kSmiValueSize pointerCompression := by
  refine ⟨?_, key_eq_key_iff index⟩
  rw [← key_eq_accessedAddress_iff h]
  constructor
  · intro hkey
    obtain ⟨location, hlocation, haddress⟩ := hkey.hook .load
    rw [runtimeWebTSanAtomics_eq hc hs] at hlocation
    obtain rfl := congrArg HookCall.location (Option.some.inj hlocation)
    exact BitVec.eq_of_toNat_eq (haddress.trans (toNat_accessedAddress h).symm)
  · intro hkey
    exact {
      hook := fun hook ↦ ⟨_, runtimeWebTSanAtomics_eq hc hs hook index, by
        rw [hkey, toNat_accessedAddress h]⟩
      access := toNat_accessedAddress h
      wait := toNat_add_elementOffset h
      wasm := toNat_add_elementOffset h }

end TypedArray

/-- A shared `Int8Array` with a little more than `2 ^ 31` elements. -/
def largeArray : TypedArray where
  kind := .int8
  isShared := true
  backingStore := 2 ^ 40
  byteLength := 2 ^ 31 + 4096
  byteOffset := 0
  length := 2 ^ 31 + 4096
  end_le := by decide
  byteLength_le := by decide
  backingStore_add_le := by decide

/-- All hooks are registered, and the thread has slot 0. -/
def activeCallbacks : AtomicsCallbacks := ⟨true, fun _ ↦ true, some 0⟩

theorem activeCallbacks_active : activeCallbacks.Active 0 :=
  ⟨rfl, fun _ ↦ rfl, rfl, by decide⟩

theorem largeArray_oneKey : largeArray.OneKey activeCallbacks true 0 4096 :=
  (TypedArray.oneKey_iff activeCallbacks_active rfl true
    (show 4096 < largeArray.length by decide)).1.mpr (by decide)

/-- With pointer compression, the element `2 ^ 30` does not have its address as the key, and the
element `2 ^ 31` shares the key of the first one. -/
theorem largeArray_not_oneKey : 2 ^ 30 < largeArray.length ∧
    ¬largeArray.OneKey activeCallbacks true 0 (2 ^ 30) ∧
    2 ^ 31 < largeArray.length ∧ largeArray.key true (2 ^ 31) = largeArray.key true 0 := by
  refine ⟨by decide, fun hkey ↦ ?_, by decide, by decide⟩
  obtain ⟨location, hlocation, haddress⟩ := hkey.hook .load
  rw [TypedArray.runtimeWebTSanAtomics_eq activeCallbacks_active rfl] at hlocation
  obtain rfl := congrArg HookCall.location (Option.some.inj hlocation)
  exact absurd haddress (by decide)

end WebTSan
