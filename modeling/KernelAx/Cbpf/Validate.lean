import KernelAx.Cbpf.Faithful

/-!
# Classic BPF — translation validation

`validate_translation_bytes`: the checker decodes the native bytes front to back and compares
each operation with an independently written lowering of the source. A lowering is the list of
expectations the checker goes through; branch targets are recorded on the way and compared at
the end, when the offsets of the source instructions, of the failure block and of the epilogue
are known.
-/

namespace KernelAx.Cbpf

open X86 (Byte)

/-! ### Expectations -/

inductive Target where
  | source (pc : Nat)
  | failure
  | epilogue
  deriving DecidableEq, Repr

/-- A jump that was seen, to be compared with the place of its target. -/
structure TargetCheck where
  pc : Nat
  actual : Nat
  expected : Target
  deriving DecidableEq, Repr

/-- `expect`, and `expect_conditional_jump` and `expect_jump` with the `record_target` that
follows them. -/
inductive Expectation where
  | op (o : NativeOp)
  | jcc (condition : Condition) (target : Target)
  | jump (target : Target)
  deriving DecidableEq, Repr

/-- The checker's position and the recorded targets. -/
structure Checker where
  position : Nat
  targets : List TargetCheck
  deriving DecidableEq, Repr

/-- One expectation: `pc` is the source instruction an error names, `site` the one a target is
recorded under. -/
def Checker.expect (bytes : List Byte) (pc site : Nat) (e : Expectation) (c : Checker) :
    Except ImageValidationError Checker :=
  match decodeOperation c.position (bytes.drop c.position) with
  | none => .error (.nativeDecode c.position)
  | some (operation, next) =>
    match e, operation with
    | .op o, _ =>
      if operation = o then .ok { c with position := next }
      else .error (.nativeSemanticMismatch pc c.position)
    | .jcc condition expected, .conditionalJump actual target =>
      if actual = condition then
        .ok { position := next, targets := c.targets ++ [⟨site, target, expected⟩] }
      else .error (.nativeSemanticMismatch pc c.position)
    | .jump expected, .jump target =>
      .ok { position := next, targets := c.targets ++ [⟨site, target, expected⟩] }
    | _, _ => .error (.nativeSemanticMismatch pc c.position)

def Checker.expectAll (bytes : List Byte) (pc site : Nat) :
    List Expectation → Checker → Except ImageValidationError Checker
  | [], c => .ok c
  | e :: es, c => do
    let c ← c.expect bytes pc site e
    Checker.expectAll bytes pc site es c

/-! ### The lowering -/

/-- The prologue's first part: save the callee-saved registers and make the frame. -/
def prologueFrame : List Expectation :=
  [.op (.push .rbp), .op (.push .r12), .op (.push .r13), .op (.push .r14), .op (.push .r15),
    .op (movReg .qword .rbp .rsp), .op (binaryImm .sub .qword .rsp 0x40)]

/-- The packet pointer and length, from the arguments or from the context. -/
def prologueArguments : InputProfile → List Expectation
  | .packetBytesBigEndian | .nativeAlignedWords =>
    [.op (movReg .qword .r12 .rdi), .op (movReg .word .r13d .esi)]
  | .packetContextBigEndian =>
    [.op (.load .qword .r12 .rdi 0),
      .op (.load .word .r13d .rdi (BitVec.ofNat 8 contextLenOffset))]

def prologueClear : List Expectation := [.op (binaryXor .eax .eax), .op (binaryXor .ecx .ecx)]

def validatePrologue (profile : InputProfile) : List Expectation :=
  prologueFrame ++ (prologueArguments profile ++ prologueClear)

def validateEpilogue : List Expectation :=
  [.op (binaryImm .add .qword .rsp 0x40), .op (.pop .r15), .op (.pop .r14), .op (.pop .r13),
    .op (.pop .r12), .op (.pop .rbp), .op .return]

/-- The failure block: return zero through the epilogue. -/
def validateFailure : List Expectation := [.op (binaryXor .eax .eax), .jump .epilogue]

def validateBounds (width : LoadWidth) : List Expectation :=
  let bytes := BitVec.ofNat 32 width.bytes
  [.op (.compare .word (.register .r13d) (.immediate bytes)), .jcc .below .failure,
    .op (movReg .word .r15d .r13d), .op (binaryImm .sub .word .r15d bytes),
    .op (.compare .word (.register .r15d) (.register .r14d)), .jcc .below .failure]

def validateAddressAdd : List Expectation :=
  [.op (binaryReg .add .qword .r14 .r12), .jcc .below .failure]

def validateEndianTransform (width : LoadWidth) (profile : InputProfile) : List Expectation :=
  match profile, width with
  | .nativeAlignedWords, _ | _, .byte => []
  | _, .half => [.op (.unary .rotateLeft .half .eax 8)]
  | _, .word => [.op (.unary .bswap .word .eax 0)]

def nativeLoadWidth : LoadWidth → Width
  | .byte => .byte
  | .half => .half
  | .word => .word

/-- The barrier and the load behind the bounds checks. -/
def validateGuardedLoad (width : LoadWidth) (profile : InputProfile) : List Expectation :=
  .op .speculationBarrier :: .op (.load (nativeLoadWidth width) .eax .r14 0) ::
    validateEndianTransform width profile

def validateAbsoluteLoad (pc : Nat) (offset : BitVec 32) (width : LoadWidth)
    (profile : InputProfile) : Except ImageValidationError (List Expectation) :=
  match ancillaryFromOffset offset with
  | some field =>
    if profile = .packetContextBigEndian then
      .ok [.op (.load .word .eax .rdi
        (BitVec.ofNat 8 (contextMetadataOffset + field.metadataOffset)))]
    else .error (.profileUnsupported pc (Opcode.ldAbs width).code)
  | none =>
    .ok (.op (movImm .r14d offset) :: (validateBounds width ++
      (validateAddressAdd ++ validateGuardedLoad width profile)))

def validateAbsoluteLoadToX (pc : Nat) (offset : BitVec 32) :
    Except ImageValidationError (List Expectation) :=
  if (ancillaryFromOffset offset).isSome then .error (.unsupportedAncillaryLoad pc offset)
  else
    .ok (.op (movImm .r14d offset) :: (validateBounds .byte ++ (validateAddressAdd ++
      [.op .speculationBarrier, .op (.load .byte .ecx .r14 0)])))

/-- The run-time alignment check of a native word load. -/
def validateAlignment (width : LoadWidth) (profile : InputProfile) : List Expectation :=
  if profile = .nativeAlignedWords ∧ width = .word then
    [.op (.test .byte (.register .r14d) (.immediate 3)), .jcc .notEqual .failure]
  else []

def validateIndirectLoad (offset : BitVec 32) (width : LoadWidth) (profile : InputProfile) :
    List Expectation :=
  .op (movReg .word .r14d .ecx) :: .op (binaryImm .add .word .r14d offset) ::
    .jcc .below .failure :: (validateBounds width ++ (validateAlignment width profile ++
      (validateAddressAdd ++ validateGuardedLoad width profile)))

/-- `scratch_displacement`: `(-(4 * (index + 1))) as i8`. -/
def scratchDisplacement (index : BitVec 32) : BitVec 8 :=
  BitVec.ofInt 8 (-(4 * ((index.toNat : Int) + 1)))

def scratch (index : BitVec 32) : Operand := .memory .rbp (scratchDisplacement index)

/-- `binary_kind` for the operations that lower to one ALU instruction. -/
def binaryKind : AluOp → BinaryKind
  | .add => .add
  | .sub => .sub
  | .or => .or
  | .and => .and
  | _ => .xor

def jumpCondition : JmpOp → Condition
  | .jeq => .equal
  | .jgt => .above
  | .jge => .aboveOrEqual
  | .jset => .notEqual

/-- The move of the remainder that ends a modulus. -/
def remainderMove (op : AluOp) : List Expectation :=
  if op = .mod then [.op (movReg .word .eax .edx)] else []

def shiftKind : AluOp → ShiftKind
  | .lsh => .left
  | _ => .right

def validateAlu (op : AluOp) (src : Source) (k : BitVec 32) : List Expectation :=
  match op, src with
  | .mul, .k => [.op (.immediateMultiply .eax .eax k)]
  | .mul, .x => [.op (binaryReg .mul .word .eax .ecx)]
  | .div, .k | .mod, .k =>
    .op (movImm .r14d k) :: .op (binaryXor .edx .edx) ::
      .op (.divide .word (.register .r14d)) :: remainderMove op
  | .div, .x | .mod, .x =>
    .op (.test .word (.register .ecx) (.register .ecx)) :: .jcc .equal .failure ::
      .op (binaryXor .edx .edx) :: .op (.divide .word (.register .ecx)) :: remainderMove op
  | .lsh, .k | .rsh, .k =>
    [.op (.shiftImmediate (shiftKind op) .word .eax (k.setWidth 8))]
  | .lsh, .x | .rsh, .x =>
    [.op (movReg .word .r14d .ecx), .op (binaryImm .and .word .r14d 0x1f),
      .op (movReg .word .r15d .ecx), .op (movReg .word .ecx .r14d),
      .op (.shiftRegister (shiftKind op) .word .eax), .op (movReg .word .ecx .r15d)]
  | op, .k => [.op (binaryImmediate (binaryKind op) k)]
  | op, .x => [.op (binaryReg (binaryKind op) .word .eax .ecx)]

/-- The comparison of a conditional jump; `jset` tests. -/
def validateComparison (op : JmpOp) (src : Source) (k : BitVec 32) : Expectation :=
  let right := match src with | .k => Operand.immediate k | .x => .register .ecx
  match op with
  | .jset => .op (.test .word (.register .eax) right)
  | _ => .op (.compare .word (.register .eax) right)

/-- `validate_source_instruction`: the expectations of one source instruction. -/
def validateSourceInstruction (pc : Nat) (i : Instruction) (profile : InputProfile)
    (position : Nat) : Except ImageValidationError (List Expectation) :=
  match i.op with
  | none => .error (.nativeSemanticMismatch pc position)
  | some .ldImm => .ok [.op (movImm .eax i.k)]
  | some (.ldAbs width) => validateAbsoluteLoad pc i.k width profile
  | some (.ldInd width) => .ok (validateIndirectLoad i.k width profile)
  | some .ldMem => .ok [.op (.mov .word (.register .eax) (scratch i.k))]
  | some .ldLen => .ok [.op (movReg .word .eax .r13d)]
  | some .ldxImm => .ok [.op (movImm .ecx i.k)]
  | some .ldxMem => .ok [.op (.mov .word (.register .ecx) (scratch i.k))]
  | some .ldxLen => .ok [.op (movReg .word .ecx .r13d)]
  | some .ldxBMsh => do
    let load ← validateAbsoluteLoadToX pc i.k
    .ok (load ++ [.op (binaryImm .and .word .ecx 0x0f),
      .op (.shiftImmediate .left .word .ecx 2)])
  | some .st => .ok [.op (.mov .word (scratch i.k) (.register .eax))]
  | some .stx => .ok [.op (.mov .word (scratch i.k) (.register .ecx))]
  | some (.alu op src) => .ok (validateAlu op src i.k)
  | some .aluNeg => .ok [.op (.unary .neg .word .eax 0)]
  | some .jmpJa => .ok [.jump (.source (pc + 1 + i.k.toNat))]
  | some (.jmp op src) =>
    .ok [validateComparison op src i.k,
      .jcc (jumpCondition op) (.source (pc + 1 + i.jt.toNat)),
      .jump (.source (pc + 1 + i.jf.toNat))]
  | some .retK => .ok [.op (movImm .eax i.k), .jump .epilogue]
  | some .retA => .ok [.jump .epilogue]
  | some .miscTax => .ok [.op (movReg .word .ecx .eax)]
  | some .miscTxa => .ok [.op (movReg .word .eax .ecx)]

/-! ### The checker -/

/-- The loop over the source instructions; `offsets` are `source_offsets` so far. -/
def validateSource (bytes : List Byte) (profile : InputProfile) :
    Nat → List Instruction → List Nat → Checker → Except ImageValidationError (List Nat × Checker)
  | _, [], offsets, c => .ok (offsets, c)
  | pc, i :: rest, offsets, c => do
    let es ← validateSourceInstruction pc i profile c.position
    let c' ← c.expectAll bytes pc pc es
    validateSource bytes profile (pc + 1) rest (offsets ++ [c.position]) c'

def Target.offset (offsets : List Nat) (failure epilogue : Nat) : Target → Option Nat
  | .source pc => offsets[pc]?
  | .failure => failure
  | .epilogue => epilogue

/-- The final comparison of the recorded targets. -/
def validateTargets (offsets : List Nat) (failure epilogue : Nat) :
    List TargetCheck → Except ImageValidationError Unit
  | [] => .ok ()
  | t :: ts =>
    if t.expected.offset offsets failure epilogue = some t.actual then
      validateTargets offsets failure epilogue ts
    else .error (.nativeTargetMismatch t.pc)

/-- `validate_translation_layout`; the result is `source_offsets`. -/
def validateTranslationLayout (bytes : List Byte) (source : List Instruction)
    (profile : InputProfile) : Except ImageValidationError (List Nat) :=
  if maxCodeImageBytes < bytes.length then .error (.imageTooLarge bytes.length)
  else do
    validateSourceContract source profile
    let c ← Checker.expectAll bytes 0 0 (validatePrologue profile) ⟨0, []⟩
    let (offsets, c) ← validateSource bytes profile 0 source [] c
    let failure := c.position
    let c ← c.expectAll bytes 0 (source.length - 1) validateFailure
    let epilogue := c.position
    let c ← c.expectAll bytes 0 0 validateEpilogue
    if c.position ≠ bytes.length then .error (.nativeTrailingBytes c.position)
    else do
      validateTargets offsets failure epilogue c.targets
      .ok offsets

def validateTranslationBytes (bytes : List Byte) (source : List Instruction)
    (profile : InputProfile) : Except ImageValidationError Unit :=
  (validateTranslationLayout bytes source profile).map fun _ => ()

end KernelAx.Cbpf
