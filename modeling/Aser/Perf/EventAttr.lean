import Aser.Perf.Event

namespace Aser.Perf

/-- The bit for a flag that is requested. -/
def requested (modifiers flag : UInt8) : BitVec 1 := .ofBool (modifiers &&& flag ≠ 0)

/-- The block says what was asked for. -/
structure PerfEventAttr.Encodes (attr : PerfEventAttr) (info : EventInfo) (attach : Bool) : Prop where
  config : attr.config = info.code
  hardware : attr.type = 0 ↔ info.type = .hardware
  raw : attr.type = 4 ↔ info.type = .raw
  disabled : attr.disabled = .ofBool !attach
  enableOnExec : attr.enableOnExec = .ofBool !attach
  excludeUser : attr.excludeUser = requested info.modifiers Perf.excludeUser
  excludeKernel : attr.excludeKernel = requested info.modifiers Perf.excludeKernel
  excludeHv : attr.excludeHv = requested info.modifiers Perf.excludeHv

/-- The flags that do not reach the kernel. -/
def droppedFlags : UInt8 := excludeKernel ||| excludeHv

theorem valid_cases {modifiers : UInt8} (valid : Event.validModifiers modifiers = true) :
    modifiers = 0 ∨ modifiers = 1 ∨ modifiers = 2 ∨ modifiers = 3 ∨ modifiers = 4 ∨ modifiers = 5 ∨
      modifiers = 6 ∨ modifiers = 7 := by
  have bound : modifiers ≤ 7 := of_decide_eq_true valid
  rw [UInt8.le_iff_toNat_le] at bound
  have bound : modifiers.toNat ≤ 7 := bound
  simp only [← UInt8.toNat_inj]
  have values : (0 : UInt8).toNat = 0 ∧ (1 : UInt8).toNat = 1 ∧ (2 : UInt8).toNat = 2 ∧ (3 : UInt8).toNat = 3 ∧
      (4 : UInt8).toNat = 4 ∧ (5 : UInt8).toNat = 5 ∧ (6 : UInt8).toNat = 6 ∧ (7 : UInt8).toNat = 7 := by decide
  omega

/-- A flag is stored in a field of one bit: only the lowest one gets through. -/
theorem stored_flags {modifiers : UInt8} (valid : Event.validModifiers modifiers = true) :
    BitVec.ofNat 1 (modifiers &&& excludeUser).toNat = requested modifiers excludeUser ∧
      BitVec.ofNat 1 (modifiers &&& excludeKernel).toNat = 0#1 ∧
      BitVec.ofNat 1 (modifiers &&& excludeHv).toNat = 0#1 := by
  rcases valid_cases valid with rfl | rfl | rfl | rfl | rfl | rfl | rfl | rfl <;> decide

theorem dropped_iff {modifiers : UInt8} (valid : Event.validModifiers modifiers = true) :
    modifiers &&& droppedFlags = 0 ↔
      0#1 = requested modifiers excludeKernel ∧ 0#1 = requested modifiers excludeHv := by
  rcases valid_cases valid with rfl | rfl | rfl | rfl | rfl | rfl | rfl | rfl <;> decide

namespace EventLinuxImpl

variable {info info' : EventInfo} {attach attach' : Bool}

theorem attr_encodes_iff (valid : Event.validModifiers info.modifiers = true) :
    (attr info attach).Encodes info attach ↔ info.modifiers &&& droppedFlags = 0 := by
  obtain ⟨user, kernel, hv⟩ := stored_flags valid
  rw [dropped_iff valid]
  constructor
  · intro encodes
    exact ⟨kernel.symm.trans encodes.excludeKernel, hv.symm.trans encodes.excludeHv⟩
  · intro unset
    refine ⟨rfl, ?_, ?_, rfl, rfl, user, kernel.trans unset.1, hv.trans unset.2⟩
    · cases type : info.type <;> simp [attr, type]
    · cases type : info.type <;> simp [attr, type]

theorem requested_inj {flags flags' : UInt8} (valid : Event.validModifiers flags = true)
    (valid' : Event.validModifiers flags' = true) :
    requested flags excludeUser = requested flags' excludeUser ↔ flags &&& excludeUser = flags' &&& excludeUser := by
  rcases valid_cases valid with rfl | rfl | rfl | rfl | rfl | rfl | rfl | rfl <;>
    rcases valid_cases valid' with rfl | rfl | rfl | rfl | rfl | rfl | rfl | rfl <;> decide

/-- Two requests give one block exactly if they differ in dropped flags at most. -/
theorem attr_eq_iff (valid : Event.validModifiers info.modifiers = true)
    (valid' : Event.validModifiers info'.modifiers = true) :
    attr info attach = attr info' attach' ↔ info.type = info'.type ∧ info.code = info'.code ∧ attach = attach' ∧
      info.modifiers &&& excludeUser = info'.modifiers &&& excludeUser := by
  obtain ⟨user, kernel, hv⟩ := stored_flags valid
  obtain ⟨user', kernel', hv'⟩ := stored_flags valid'
  rw [← requested_inj valid valid', attr, attr, user, user', kernel, kernel', hv, hv']
  simp only [PerfEventAttr.mk.injEq]
  constructor
  · intro same
    obtain ⟨type, code, _, user, _, _, _, disabled, _⟩ := same
    refine ⟨?_, code, ?_, user⟩
    · cases inInfo : info.type <;> cases inInfo' : info'.type <;> simp [inInfo, inInfo'] at type ⊢
    · cases attach <;> cases attach' <;> simp at disabled ⊢
  · intro same
    obtain ⟨type, code, rfl, user⟩ := same
    simp [type, code, user]

theorem modifiers_of_user {flags flags' : UInt8} (valid : Event.validModifiers flags = true)
    (valid' : Event.validModifiers flags' = true) (unset : flags &&& droppedFlags = 0)
    (unset' : flags' &&& droppedFlags = 0) (user : flags &&& excludeUser = flags' &&& excludeUser) :
    flags = flags' := by
  revert unset unset' user
  rcases valid_cases valid with rfl | rfl | rfl | rfl | rfl | rfl | rfl | rfl <;>
    rcases valid_cases valid' with rfl | rfl | rfl | rfl | rfl | rfl | rfl | rfl <;> decide

/-- The block that `open` passes to the kernel encodes the request if and only if it excludes neither
the kernel nor the hypervisor. Blocks of different requests of that kind differ, while requests that
differ in these two flags only have the same block. -/
theorem attr_faithful_iff (info : EventInfo) (attach : Bool)
    (valid : Event.validModifiers info.modifiers = true) :
    ((attr info attach).Encodes info attach ↔ info.modifiers &&& droppedFlags = 0) ∧
      ∀ info' attach', Event.validModifiers info'.modifiers = true →
        (attr info attach = attr info' attach' ↔ info.type = info'.type ∧ info.code = info'.code ∧
          attach = attach' ∧ info.modifiers &&& excludeUser = info'.modifiers &&& excludeUser) ∧
        (info.modifiers &&& droppedFlags = 0 → info'.modifiers &&& droppedFlags = 0 →
          attr info attach = attr info' attach' → info = info' ∧ attach = attach') := by
  refine ⟨attr_encodes_iff valid, fun info' attach' valid' => ⟨attr_eq_iff valid valid', ?_⟩⟩
  intro unset unset' same
  obtain ⟨type, code, attached, user⟩ := (attr_eq_iff valid valid').mp same
  have modifiers := modifiers_of_user valid valid' unset unset' user
  cases info
  cases info'
  simp only at type code modifiers
  exact ⟨by rw [type, code, modifiers], attached⟩

/-- A raw event of user space only is asked for as it should be; one of everything is asked for
differently. -/
theorem attr_faithful_iff_user : (attr ⟨.raw, 0x01c2, excludeUser⟩ true).Encodes ⟨.raw, 0x01c2, excludeUser⟩ true ∧
    attr ⟨.raw, 0x01c2, excludeUser⟩ true ≠ attr ⟨.raw, 0x01c2, 0⟩ true := by
  have faithful := attr_faithful_iff ⟨.raw, 0x01c2, excludeUser⟩ true (by decide)
  refine ⟨faithful.1.mpr (by decide), fun same => ?_⟩
  have equal := (faithful.2 ⟨.raw, 0x01c2, 0⟩ true (by decide)).2 (by decide) (by decide) same
  exact absurd equal.1 (by decide)

/-- To leave out the kernel, or the hypervisor, makes no difference. -/
theorem attr_drops_flags :
    (Event.validModifiers excludeKernel = true ∧ (attr ⟨.hardware, 0, excludeKernel⟩ true).excludeKernel = 0#1 ∧
      attr ⟨.hardware, 0, excludeKernel⟩ true = attr ⟨.hardware, 0, 0⟩ true) ∧
    Event.validModifiers excludeHv = true ∧ (attr ⟨.hardware, 0, excludeHv⟩ true).excludeHv = 0#1 ∧
      attr ⟨.hardware, 0, excludeHv⟩ true = attr ⟨.hardware, 0, 0⟩ true := by
  decide

end EventLinuxImpl

end Aser.Perf
