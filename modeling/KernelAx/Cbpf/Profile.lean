import KernelAx.Cbpf.Verified

/-!
# Classic BPF — input profiles and source acceptance

The three input ABIs of emitted code, the errors of the independent validator, and the source
checks that the translator and the validator each make before they look at native code. The
validator repeats the verifier's passes with its own error type; the messages correspond by
`mapVerifyError`.
-/

namespace KernelAx.Cbpf

def maxCodeImageBytes : Nat := 256 * 1024

/-- The input ABI used by emitted loads. -/
inductive InputProfile where
  | packetBytesBigEndian | packetContextBigEndian | nativeAlignedWords
  deriving DecidableEq, Repr

/-- Offsets inside `PacketInputContext`: the length and the metadata. -/
def contextLenOffset : Nat := 8

def contextMetadataOffset : Nat := 16

/-- The size of `PacketInputContext`: pointer, length, reserved word and eight metadata words. -/
def contextSize : Nat := 48

inductive ImageValidationError where
  | empty
  | tooLong (length : Nat)
  | unsupportedOpcode (pc : Nat) (code : BitVec 16)
  | immediateDivisionByZero (pc : Nat)
  | immediateShiftOutOfRange (pc : Nat) (shift : BitVec 32)
  | scratchOutOfRange (pc : Nat) (index : BitVec 32)
  | scratchUninitialized (pc : Nat) (index : BitVec 32)
  | jumpOutOfRange (pc : Nat)
  | unsupportedAncillaryLoad (pc : Nat) (offset : BitVec 32)
  | missingFinalReturn
  | invalidEntry (entry : Nat)
  | invalidBoundary (index : Nat)
  | boundaryOutOfBounds (index : Nat)
  | sourceMapMismatch (index : Nat)
  | missingBranchSite (pc : Nat)
  | branchSiteMismatch (pc : Nat)
  | branchOutOfBounds (pc : Nat)
  | relocationOutOfBounds (index : Nat)
  | unexpectedRelocation (index : Nat)
  | imageTooLarge (size : Nat)
  | profileUnsupported (pc : Nat) (code : BitVec 16)
  | nativeDecode (offset : Nat)
  | nativeSemanticMismatch (pc offset : Nat)
  | nativeTargetMismatch (pc : Nat)
  | nativeTrailingBytes (offset : Nat)
  deriving DecidableEq, Repr

def mapVerifyError : VerifyError → ImageValidationError
  | .empty => .empty
  | .tooLong length => .tooLong length
  | .unsupportedOpcode pc code => .unsupportedOpcode pc code
  | .unsupportedAncillaryLoad pc offset => .unsupportedAncillaryLoad pc offset
  | .immediateDivisionByZero pc => .immediateDivisionByZero pc
  | .immediateShiftOutOfRange pc shift => .immediateShiftOutOfRange pc shift
  | .scratchOutOfRange pc index => .scratchOutOfRange pc index
  | .scratchUninitialized pc index => .scratchUninitialized pc index
  | .jumpOutOfRange pc => .jumpOutOfRange pc
  | .missingFinalReturn => .missingFinalReturn

/-! ### Profile checks -/

/-- Whether an instruction is outside of a profile: an ancillary load needs the packet context,
and native words are loaded whole at aligned offsets. -/
def outsideProfile (i : Instruction) (profile : InputProfile) : Bool :=
  match i.op with
  | some (.ldAbs width) =>
    (isAncillaryOffset i.k && (ancillaryFromOffset i.k).isSome
      && profile != .packetContextBigEndian)
    || (profile == .nativeAlignedWords && (width != .word || i.k.toNat % 4 != 0))
  | some (.ldInd width) => profile == .nativeAlignedWords && width != .word
  | some .ldxBMsh => profile == .nativeAlignedWords
  | _ => false

/-- `validate_profile_contract` on one instruction. -/
def validateProfileContract (pc : Nat) (i : Instruction) (profile : InputProfile) :
    Except ImageValidationError Unit :=
  if outsideProfile i profile then .error (.profileUnsupported pc i.code) else .ok ()

def validateSourceInstructionContract (pc : Nat) (i : Instruction) :
    Except ImageValidationError Unit :=
  (checkStatement pc i).mapError mapVerifyError

/-- The loop of `validate_source_contract` from `pc` on. -/
def contractInstructions (length : Nat) (profile : InputProfile) :
    Nat → List Instruction → Except ImageValidationError Unit
  | _, [] => .ok ()
  | pc, i :: rest => do
    validateSourceInstructionContract pc i
    validateProfileContract pc i profile
    (checkJump length pc i).mapError mapVerifyError
    contractInstructions length profile (pc + 1) rest

/-- `validate_scratch_initialization` of the validator. -/
def validateScratchInitialization (instructions : List Instruction) :
    Except ImageValidationError Unit :=
  (verifyScratchInitialization instructions).mapError mapVerifyError

/-- The validator's acceptance of a source, independent of the translator's. -/
def validateSourceContract (instructions : List Instruction) (profile : InputProfile) :
    Except ImageValidationError Unit :=
  if instructions.isEmpty then .error .empty
  else if maxInstructions < instructions.length then .error (.tooLong instructions.length)
  else do
    contractInstructions instructions.length profile 0 instructions
    if (instructions.getLast?.map isReturn).getD false then
      validateScratchInitialization instructions
    else .error .missingFinalReturn

/-! ### What acceptance establishes -/

/-- No instruction is outside of the profile. -/
def FitsProfile (is : List Instruction) (profile : InputProfile) : Prop :=
  ∀ {pc : Nat} {i}, is[pc]? = some i → outsideProfile i profile = false

theorem contractInstructions_ok {length start pc : Nat} {profile : InputProfile}
    {is : List Instruction} {i : Instruction}
    (h : contractInstructions length profile start is = .ok ()) (hi : is[pc]? = some i) :
    checkStatement (start + pc) i = .ok () ∧ outsideProfile i profile = false ∧
      checkJump length (start + pc) i = .ok () := by
  refine forall_of_loop
    (L := fun start is => contractInstructions length profile start is = .ok ())
    (P := fun pc i => checkStatement pc i = .ok () ∧ outsideProfile i profile = false ∧
      checkJump length pc i = .ok ()) (fun {_ _ _} h => ?_) h hi
  simp only [contractInstructions, bind_eq_ok] at h
  obtain ⟨⟨⟩, hs, ⟨⟩, hp, ⟨⟩, hj, hr⟩ := h
  refine ⟨⟨mapError_eq_ok.mp hs, ?_, mapError_eq_ok.mp hj⟩, hr⟩
  unfold validateProfileContract at hp
  split at hp
  · cases hp
  · exact Bool.eq_false_iff.mpr ‹_›

/-- **The validator's source contract establishes well-formedness and the profile.** -/
theorem wellFormed_of_contract {is : List Instruction} {profile : InputProfile}
    (h : validateSourceContract is profile = .ok ()) :
    WellFormed is ∧ FitsProfile is profile := by
  unfold validateSourceContract at h
  split at h
  · cases h
  rename_i hne
  split at h
  · cases h
  obtain ⟨⟨⟩, hcheck, h⟩ := bind_eq_ok.mp h
  split at h
  · refine ⟨Structured.wellFormed ⟨not_lt.mp ‹_›, fun hi => ?_, fun hi => ?_, last_of_returns ‹_›⟩
      (by simpa using hne) (mapError_eq_ok.mp h), fun hi => (contractInstructions_ok hcheck hi).2.1⟩
    · simpa using (contractInstructions_ok hcheck hi).1
    · simpa using checkJump_ok (contractInstructions_ok hcheck hi).2.2
  · cases h

end KernelAx.Cbpf
