import KernelAx.Cbpf.Validate

/-!
# Classic BPF — the translator

`translate_program`: one pass emits bytes with placeholder displacements and remembers where they
are (`Patch`) and where the jumps of the source went (`BranchSite`); `resolve` writes the
displacements once every offset is known; the finished image goes through the validator and
through `validate_image`. Allocation is taken to succeed.
-/

namespace KernelAx.Cbpf.Translate

open X86 (Byte)

/-! ### Images -/

/-- Where the code of a source instruction is in the image. -/
structure InstructionMap where
  sourcePc : Nat
  offset : Nat
  len : Nat
  deriving DecidableEq, Repr

/-- The two displacements of a conditional jump, with the targets they are to reach. -/
structure BranchSite where
  sourcePc : Nat
  truePc : Nat
  falsePc : Nat
  trueDisp : Nat
  falseDisp : Nat
  deriving DecidableEq, Repr

/-- Native bytes with their metadata; a relocation is its offset. -/
structure CodeImage where
  bytes : List Byte
  relocations : List Nat
  entry : Nat
  boundaries : List Nat
  instructionMap : List InstructionMap
  source : List Instruction
  branches : List BranchSite
  profile : InputProfile
  deriving DecidableEq, Repr

inductive TranslationError where
  | unsupportedOpcode (pc : Nat) (code : BitVec 16)
  | invalidSource (error : VerifyError)
  | imageTooLarge
  | invalidImage (error : ImageValidationError)
  | profileUnsupported (pc : Nat) (code : BitVec 16)
  deriving DecidableEq, Repr

/-! ### The assembler -/

/-- A displacement to be filled in when the target has a place. -/
structure Patch where
  disp : Nat
  target : Target
  deriving DecidableEq, Repr

/-- The image as far as it is written, with the patches that are open. -/
structure Assembler where
  bytes : List Byte
  patches : List Patch
  branches : List BranchSite
  deriving DecidableEq, Repr

def leBytes (v : BitVec 32) : List Byte :=
  [v.setWidth 8, (v >>> 8).setWidth 8, (v >>> 16).setWidth 8, (v >>> 24).setWidth 8]

def conditionByte : Condition → Byte
  | .below => 0x82
  | .aboveOrEqual => 0x83
  | .equal => 0x84
  | .notEqual => 0x85
  | .above => 0x87

namespace Assembler

def new : Assembler := ⟨[], [], []⟩

/-- `bytes.extend_from_slice`. -/
def extend (a : Assembler) (bs : List Byte) : Assembler := { a with bytes := a.bytes ++ bs }

def u32 (a : Assembler) (value : BitVec 32) : Assembler := a.extend (leBytes value)

/-- A placeholder displacement with its patch; the second result is its offset. -/
def placeholder (a : Assembler) (target : Target) : Assembler × Nat :=
  let disp := a.bytes.length
  let a := a.u32 0
  ({ a with patches := a.patches ++ [⟨disp, target⟩] }, disp)

def emitJump (a : Assembler) (target : Target) : Assembler × Nat :=
  (a.extend [0xe9]).placeholder target

def jcc (a : Assembler) (condition : Condition) (target : Target) : Assembler × Nat :=
  (a.extend [0x0f, conditionByte condition]).placeholder target

def emitPrologue (a : Assembler) (profile : InputProfile) : Assembler :=
  let a := a.extend [0x55, 0x41, 0x54, 0x41, 0x55, 0x41, 0x56, 0x41, 0x57, 0x48, 0x89, 0xe5,
    0x48, 0x83, 0xec, 0x40]
  let a := match profile with
    | .packetBytesBigEndian | .nativeAlignedWords => a.extend [0x49, 0x89, 0xfc, 0x41, 0x89, 0xf5]
    | .packetContextBigEndian =>
      a.extend [0x4c, 0x8b, 0x27, 0x44, 0x8b, 0x6f, BitVec.ofNat 8 contextLenOffset]
  a.extend [0x31, 0xc0, 0x31, 0xc9]

def movEaxImm (a : Assembler) (value : BitVec 32) : Assembler := (a.extend [0xb8]).u32 value

def movEcxImm (a : Assembler) (value : BitVec 32) : Assembler := (a.extend [0xb9]).u32 value

def movR14dImm (a : Assembler) (value : BitVec 32) : Assembler := (a.extend [0x41, 0xbe]).u32 value

def cmpR13Imm (a : Assembler) (value : Byte) : Assembler := a.extend [0x41, 0x83, 0xfd, value]

def subR15Imm (a : Assembler) (value : Byte) : Assembler := a.extend [0x41, 0x83, 0xef, value]

def emitBounds (a : Assembler) (width : LoadWidth) : Assembler :=
  let a := a.cmpR13Imm (BitVec.ofNat 8 width.bytes)
  let a := (a.jcc .below .failure).1
  let a := a.extend [0x45, 0x89, 0xef]
  let a := a.subR15Imm (BitVec.ofNat 8 width.bytes)
  let a := a.extend [0x45, 0x39, 0xf7]
  (a.jcc .below .failure).1

def emitBoundsInd (a : Assembler) (width : LoadWidth) (profile : InputProfile) : Assembler :=
  let a := a.emitBounds width
  if profile = .nativeAlignedWords ∧ width = .word then
    ((a.extend [0x41, 0xf6, 0xc6, 0x03]).jcc .notEqual .failure).1
  else a

def addR14R12 (a : Assembler) : Assembler := ((a.extend [0x4d, 0x01, 0xe6]).jcc .below .failure).1

def emitSpeculationBarrier (a : Assembler) : Assembler := a.extend [0x0f, 0xae, 0xe8]

def emitLoadR14 (a : Assembler) (width : LoadWidth) (profile : InputProfile) : Assembler :=
  match width with
  | .byte => a.extend [0x41, 0x0f, 0xb6, 0x06]
  | .half =>
    let a := a.extend [0x41, 0x0f, 0xb7, 0x06]
    match profile with
    | .packetBytesBigEndian | .packetContextBigEndian => a.extend [0x66, 0xc1, 0xc0, 0x08]
    | .nativeAlignedWords => a
  | .word =>
    let a := a.extend [0x41, 0x8b, 0x06]
    match profile with
    | .packetBytesBigEndian | .packetContextBigEndian => a.extend [0x0f, 0xc8]
    | .nativeAlignedWords => a

def emitAncillaryLoad (a : Assembler) (field : Ancillary) : Assembler :=
  a.extend [0x8b, 0x47, BitVec.ofNat 8 (min (contextMetadataOffset + field.metadataOffset) 255)]

def emitAbsLoad (a : Assembler) (offset : BitVec 32) (width : LoadWidth)
    (profile : InputProfile) : Assembler :=
  match ancillaryFromOffset offset with
  | some field => a.emitAncillaryLoad field
  | none =>
    (((a.movR14dImm offset).emitBounds width).addR14R12.emitSpeculationBarrier).emitLoadR14
      width profile

def emitAbsLoadToX (a : Assembler) (offset : BitVec 32) : Assembler :=
  (((a.movR14dImm offset).emitBounds .byte).addR14R12.emitSpeculationBarrier).extend
    [0x41, 0x0f, 0xb6, 0x0e]

def emitIndLoad (a : Assembler) (offset : BitVec 32) (width : LoadWidth)
    (profile : InputProfile) : Assembler :=
  let a := a.extend [0x41, 0x89, 0xce]
  let a := (a.extend [0x41, 0x81, 0xc6]).u32 offset
  let a := (a.jcc .below .failure).1
  ((a.emitBoundsInd width profile).addR14R12.emitSpeculationBarrier).emitLoadR14 width profile

/-- `scratch_disp`: `(-(4 * (index + 1))) as u8`. -/
def scratchDisp (index : BitVec 32) : Byte := BitVec.ofInt 8 (-(4 * ((index.toNat : Int) + 1)))

def loadScratch (a : Assembler) (index : BitVec 32) (intoX : Bool) : Assembler :=
  a.extend [0x8b, if intoX then 0x4d else 0x45, scratchDisp index]

def storeScratch (a : Assembler) (index : BitVec 32) (fromX : Bool) : Assembler :=
  a.extend [0x89, if fromX then 0x4d else 0x45, scratchDisp index]

def binImm (a : Assembler) (opcode : Byte) (immediate : BitVec 32) : Assembler :=
  (a.extend [opcode]).u32 immediate

def imulImm (a : Assembler) (immediate : BitVec 32) : Assembler :=
  (a.extend [0x69, 0xc0]).u32 immediate

def divImm (a : Assembler) (immediate : BitVec 32) (remainder : Bool) : Assembler :=
  let a := (a.movR14dImm immediate).extend [0x31, 0xd2, 0x41, 0xf7, 0xf6]
  if remainder then a.extend [0x89, 0xd0] else a

def divX (a : Assembler) (remainder : Bool) : Assembler :=
  let a := ((a.extend [0x85, 0xc9]).jcc .equal .failure).1
  let a := a.extend [0x31, 0xd2, 0xf7, 0xf1]
  if remainder then a.extend [0x89, 0xd0] else a

def shiftImm (a : Assembler) (opcode modrm count : Byte) : Assembler :=
  a.extend [opcode, modrm, count]

def shiftX (a : Assembler) (opcode modrm : Byte) : Assembler :=
  a.extend [0x41, 0x89, 0xce, 0x41, 0x83, 0xe6, 0x1f, 0x41, 0x89, 0xcf, 0x44, 0x89, 0xf1, opcode,
    modrm, 0x44, 0x89, 0xf9]

/-- `value as u32`. -/
def truncate (n : Nat) : Nat := n % 2 ^ 32

def emitConditional (a : Assembler) (condition : Condition) (immediate : BitVec 32)
    (i : Instruction) (xSource : Bool) (pc : Nat) : Assembler :=
  let a :=
    if xSource ∧ condition = .notEqual then a.extend [0x85, 0xc8]
    else if xSource then a.extend [0x39, 0xc8]
    else if condition = .notEqual then (a.extend [0xa9]).u32 immediate
    else (a.extend [0x3d]).u32 immediate
  let (a, trueDisp) := a.jcc condition (.source (pc + 1 + i.jt.toNat))
  let (a, falseDisp) := a.emitJump (.source (pc + 1 + i.jf.toNat))
  { a with branches := a.branches ++ [{
      sourcePc := truncate pc
      truePc := truncate (pc + 1 + i.jt.toNat)
      falsePc := truncate (pc + 1 + i.jf.toNat)
      trueDisp := truncate trueDisp
      falseDisp := truncate falseDisp }] }

/-- The unconditional jump with its branch site. -/
def emitJa (a : Assembler) (pc : Nat) (k : BitVec 32) : Assembler :=
  let target := pc + 1 + k.toNat
  let (a, disp) := a.emitJump (.source target)
  { a with branches := a.branches ++ [{
      sourcePc := truncate pc
      truePc := truncate target
      falsePc := truncate target
      trueDisp := truncate disp
      falseDisp := truncate disp }] }

/-- The opcode byte of the short immediate forms on `eax`. -/
def immediateByte : AluOp → Byte
  | .add => 0x05
  | .sub => 0x2d
  | .or => 0x0d
  | .and => 0x25
  | _ => 0x35

def registerByte : AluOp → Byte
  | .add => 0x01
  | .sub => 0x29
  | .or => 0x09
  | .and => 0x21
  | _ => 0x31

def emitAlu (a : Assembler) (op : AluOp) (src : Source) (k : BitVec 32) : Assembler :=
  match op, src with
  | .mul, .k => a.imulImm k
  | .mul, .x => a.extend [0x0f, 0xaf, 0xc1]
  | .div, .k => a.divImm k false
  | .div, .x => a.divX false
  | .mod, .k => a.divImm k true
  | .mod, .x => a.divX true
  | .lsh, .k => a.shiftImm 0xc1 0xe0 (k.setWidth 8)
  | .lsh, .x => a.shiftX 0xd3 0xe0
  | .rsh, .k => a.shiftImm 0xc1 0xe8 (k.setWidth 8)
  | .rsh, .x => a.shiftX 0xd3 0xe8
  | op, .k => a.binImm (immediateByte op) k
  | op, .x => a.extend [registerByte op, 0xc8]

def emitInstruction (a : Assembler) (pc : Nat) (i : Instruction) (profile : InputProfile) :
    Assembler :=
  match i.op with
  | none => a
  | some .ldImm => a.movEaxImm i.k
  | some (.ldAbs width) => a.emitAbsLoad i.k width profile
  | some (.ldInd width) => a.emitIndLoad i.k width profile
  | some .ldMem => a.loadScratch i.k false
  | some .ldLen => a.extend [0x44, 0x89, 0xe8]
  | some .ldxImm => a.movEcxImm i.k
  | some .ldxMem => a.loadScratch i.k true
  | some .ldxLen => a.extend [0x44, 0x89, 0xe9]
  | some .ldxBMsh => (a.emitAbsLoadToX i.k).extend [0x83, 0xe1, 0x0f, 0xc1, 0xe1, 0x02]
  | some .st => a.storeScratch i.k false
  | some .stx => a.storeScratch i.k true
  | some (.alu op src) => a.emitAlu op src i.k
  | some .aluNeg => a.extend [0xf7, 0xd8]
  | some .jmpJa => a.emitJa pc i.k
  | some (.jmp op .k) => a.emitConditional (jumpCondition op) i.k i false pc
  | some (.jmp op .x) => a.emitConditional (jumpCondition op) 0 i true pc
  | some .retK => ((a.movEaxImm i.k).emitJump .epilogue).1
  | some .retA => (a.emitJump .epilogue).1
  | some .miscTax => a.extend [0x89, 0xc1]
  | some .miscTxa => a.extend [0x89, 0xc8]

def emitZeroReturn (a : Assembler) : Assembler := ((a.extend [0x31, 0xc0]).emitJump .epilogue).1

def emitEpilogue (a : Assembler) : Assembler :=
  a.extend [0x48, 0x83, 0xc4, 0x40, 0x41, 0x5f, 0x41, 0x5e, 0x41, 0x5d, 0x41, 0x5c, 0x5d, 0xc3]

end Assembler

/-! ### Resolving displacements -/

/-- Overwrite the four bytes at `disp`. -/
def copyFromSlice (bytes : List Byte) (disp : Nat) (v : BitVec 32) : List Byte :=
  bytes.take disp ++ leBytes v ++ bytes.drop (disp + 4)

/-- The displacement from the end of the field at `disp` to `target`, if it fits; lengths of
vectors are below `isize::MAX`, so the conversions to `i64` are exact. -/
def displacement (disp target : Nat) : Option (BitVec 32) :=
  let d := (target : Int) - (disp + 4 : Nat)
  if -2 ^ 31 ≤ d ∧ d < 2 ^ 31 then some (BitVec.ofInt 32 d) else none

def applyPatches (offsets : List Nat) (failure epilogue : Nat) :
    List Patch → List Byte → Except TranslationError (List Byte)
  | [], bytes => .ok bytes
  | patch :: rest, bytes =>
    match patch.target.offset offsets failure epilogue with
    | none => .error .imageTooLarge
    | some target =>
      match displacement patch.disp target with
      | none => .error .imageTooLarge
      | some d =>
        applyPatches offsets failure epilogue rest (copyFromSlice bytes patch.disp d)

/-- `patch_matches`: the displacement at `disp` leads to `target`. -/
def patchMatches (bytes : List Byte) (disp target : Nat) : Bool :=
  match bytes.drop disp with
  | b₀ :: b₁ :: b₂ :: b₃ :: _ => ((disp + 4 : Nat) : Int) + (X86.le32 b₀ b₁ b₂ b₃).toInt = target
  | _ => false

/-- The check of one branch site behind the patches. -/
def branchResolved (bytes : List Byte) (offsets : List Nat) (b : BranchSite) : Bool :=
  match offsets[b.truePc]?, offsets[b.falsePc]? with
  | some t, some f => patchMatches bytes b.trueDisp t && patchMatches bytes b.falseDisp f
  | _, _ => false

def Assembler.resolve (a : Assembler) (count : Nat) (map : List InstructionMap)
    (failure epilogue : Nat) : Except TranslationError Assembler := do
  let offsets := map.map InstructionMap.offset
  let bytes ← applyPatches offsets failure epilogue a.patches a.bytes
  if a.branches.all (branchResolved bytes offsets) then
    if count ≠ map.length then .error .imageTooLarge else .ok { a with bytes := bytes }
  else .error .imageTooLarge

/-! ### Source checks -/

def validateProfile (profile : InputProfile) : Nat → List Instruction → Except TranslationError Unit
  | _, [] => .ok ()
  | pc, i :: rest =>
    if outsideProfile i profile then .error (.profileUnsupported pc i.code)
    else validateProfile profile (pc + 1) rest

/-- The checks of `validate_source` on one instruction, jump targets among them. -/
def checkSource (length pc : Nat) (i : Instruction) : Except VerifyError Unit :=
  match i.op with
  | none => .error (.unsupportedOpcode pc i.code)
  | some (.alu .div .k) | some (.alu .mod .k) =>
    if i.k = 0 then .error (.immediateDivisionByZero pc) else .ok ()
  | some (.alu .lsh .k) | some (.alu .rsh .k) =>
    if 32 ≤ i.k.toNat then .error (.immediateShiftOutOfRange pc i.k) else .ok ()
  | some .ldMem | some .ldxMem | some .st | some .stx =>
    if scratchWords ≤ i.k.toNat then .error (.scratchOutOfRange pc i.k) else .ok ()
  | some .jmpJa => if pc + 1 + i.k.toNat < length then .ok () else .error (.jumpOutOfRange pc)
  | some (.jmp _ _) =>
    if length ≤ pc + 1 + i.jt.toNat ∨ length ≤ pc + 1 + i.jf.toNat then
      .error (.jumpOutOfRange pc)
    else .ok ()
  | some (.ldAbs _) =>
    if i.k &&& 0x80000000 ≠ 0 ∧ ancillaryFromOffset i.k = none then
      .error (.unsupportedAncillaryLoad pc i.k)
    else .ok ()
  | some .ldxBMsh =>
    if i.k &&& 0x80000000 ≠ 0 then .error (.unsupportedAncillaryLoad pc i.k) else .ok ()
  | _ => .ok ()

def checkSources (length : Nat) : Nat → List Instruction → Except VerifyError Unit
  | _, [] => .ok ()
  | pc, i :: rest => do
    checkSource length pc i
    checkSources length (pc + 1) rest

/-- `validate_source` of the translator; its scratch pass is the verifier's. -/
def validateSource (instructions : List Instruction) : Except VerifyError Unit :=
  if instructions.isEmpty then .error .empty
  else if maxInstructions < instructions.length then .error (.tooLong instructions.length)
  else do
    checkSources instructions.length 0 instructions
    if (instructions.getLast?.map isReturn).getD false then
      verifyScratchInitialization instructions
    else .error .missingFinalReturn

def supportedInstructions : Nat → List Instruction → Except TranslationError Unit
  | _, [] => .ok ()
  | pc, i :: rest =>
    if i.op.isSome then supportedInstructions (pc + 1) rest
    else .error (.unsupportedOpcode pc i.code)

/-! ### Validating images -/

def validateProfileImage (profile : InputProfile) :
    Nat → List Instruction → Except ImageValidationError Unit
  | _, [] => .ok ()
  | pc, i :: rest =>
    if outsideProfile i profile then .error (.profileUnsupported pc i.code)
    else validateProfileImage profile (pc + 1) rest

/-- `validate_source_instruction` of the translator. -/
def validateSourceInstruction (pc : Nat) (i : Instruction) : Except ImageValidationError Unit :=
  (checkStatement pc i).mapError mapVerifyError

/-- The loop over the source map; `bounds` are the boundaries from `pc` on, `offsets` the
validator's offsets from `pc` on. -/
def validateMap (size : Nat) : Nat → List InstructionMap → List Instruction → List Nat →
    List Nat → Except ImageValidationError Unit
  | pc, m :: ms, i :: is, b₀ :: b₁ :: bs, offsets =>
    if m.sourcePc ≠ pc ∨ m.offset ≠ b₀ ∨ offsets[0]? ≠ some m.offset ∨ m.len ≠ b₁ - b₀ ∨
        m.len = 0 then
      .error (.sourceMapMismatch pc)
    else if size < b₁ then .error (.boundaryOutOfBounds pc)
    else do
      validateSourceInstruction pc i
      validateMap size (pc + 1) ms is (b₁ :: bs) offsets.tail
  | _, _, _, _, _ => .ok ()

def isJump (i : Instruction) : Bool :=
  match i.op with
  | some .jmpJa | some (.jmp _ _) => true
  | _ => false

/-- The native opcode in front of a branch site's displacements. -/
def directBranchOpcode (bytes : List Byte) (i : Instruction) (b : BranchSite) : Bool :=
  match i.op with
  | some .jmpJa => 1 ≤ b.trueDisp ∧ bytes[b.trueDisp - 1]? = some 0xe9
  | o =>
    let expected : Byte := match o with
      | some (.jmp op _) => conditionByte (jumpCondition op)
      | _ => 0
    2 ≤ b.trueDisp ∧ bytes[b.trueDisp - 2]? = some 0x0f ∧
      bytes[b.trueDisp - 1]? = some expected ∧
      1 ≤ b.falseDisp ∧ bytes[b.falseDisp - 1]? = some 0xe9

/-- One iteration of the loop over the branch sites. -/
def validateBranch (image : CodeImage) (b : BranchSite) : Except ImageValidationError Unit :=
  match image.source[b.sourcePc]?, image.instructionMap[b.sourcePc]? with
  | some i, some m =>
    match image.instructionMap[b.truePc]?, image.instructionMap[b.falsePc]? with
    | some t, some f =>
      if i.code.toNat < 0x05 ∨ b.trueDisp < m.offset ∨ directBranchOpcode image.bytes i b = false ∨
          patchMatches image.bytes b.trueDisp t.offset = false ∨
          patchMatches image.bytes b.falseDisp f.offset = false then
        .error (.branchSiteMismatch b.sourcePc)
      else .ok ()
    | _, _ => .error (.branchOutOfBounds b.sourcePc)
  | _, _ => .error (.missingBranchSite b.sourcePc)

def validateBranches (image : CodeImage) : List BranchSite → Except ImageValidationError Unit
  | [] => .ok ()
  | b :: rest => do
    validateBranch image b
    validateBranches image rest

/-- The program counters of the jumps, from `pc` on. -/
def jumpSites : Nat → List Instruction → List Nat
  | _, [] => []
  | pc, i :: rest => if isJump i then pc :: jumpSites (pc + 1) rest else jumpSites (pc + 1) rest

/-- `boundaries.windows(2)` are increasing. -/
def increasing : List Nat → Bool
  | a :: b :: rest => a < b && increasing (b :: rest)
  | _ => true

/-- `validate_image` against the validator's offsets. -/
def validateImage (image : CodeImage) (offsets : List Nat) : Except ImageValidationError Unit :=
  if image.source.isEmpty then .error .empty
  else if maxInstructions < image.source.length then .error (.tooLong image.source.length)
  else if image.entry ≠ 0 then .error (.invalidEntry image.entry)
  else if maxCodeImageBytes < image.bytes.length then .error (.imageTooLarge image.bytes.length)
  else do
    validateProfileImage image.profile 0 image.source
    match image.relocations with
    | offset :: _ =>
      if offset + 4 ≤ image.bytes.length then .error (.unexpectedRelocation 0)
      else .error (.relocationOutOfBounds 0)
    | [] =>
      if image.instructionMap.length ≠ image.source.length ∨
          image.boundaries.length ≠ image.source.length + 2 then
        .error (.sourceMapMismatch image.instructionMap.length)
      else if ¬ ((∃ b ∈ image.boundaries.head?, image.entry < b ∧ b ≤ image.bytes.length) ∧
          image.boundaries.getLast? = some image.bytes.length) then
        .error (.boundaryOutOfBounds 0)
      else if increasing image.boundaries = false then .error (.invalidBoundary 0)
      else do
        validateMap image.bytes.length 0 image.instructionMap image.source image.boundaries
          offsets
        (validateSource image.source).mapError mapVerifyError
        validateBranches image image.branches
        if image.branches.map BranchSite.sourcePc ≠ jumpSites 0 image.source then
          .error (.missingBranchSite 0)
        else .ok ()

def CodeImage.validate (image : CodeImage) : Except ImageValidationError Unit := do
  let offsets ← validateTranslationLayout image.bytes image.source image.profile
  validateImage image offsets

/-! ### The translator -/

def tryU32 (n : Nat) : Except TranslationError Nat :=
  if n < 2 ^ 32 then .ok n else .error .imageTooLarge

/-- The emission loop: the assembler, the boundaries and the source map so far. -/
def emitSource (profile : InputProfile) :
    Nat → List Instruction → Assembler → List Nat → List InstructionMap →
      Except TranslationError (Assembler × List Nat × List InstructionMap)
  | _, [], a, boundaries, map => .ok (a, boundaries, map)
  | pc, i :: rest, a, boundaries, map => do
    let a' := a.emitInstruction pc i profile
    let stop ← tryU32 a'.bytes.length
    let start ← tryU32 a.bytes.length
    let len ← tryU32 (a'.bytes.length - a.bytes.length)
    emitSource profile (pc + 1) rest a' (boundaries ++ [stop])
      (map ++ [⟨Assembler.truncate pc, start, len⟩])

def translateProgram (source : List Instruction) (profile : InputProfile) :
    Except TranslationError CodeImage := do
  validateProfile profile 0 source
  (validateSource source).mapError .invalidSource
  supportedInstructions 0 source
  let a := Assembler.new.emitPrologue profile
  let entry ← tryU32 a.bytes.length
  let (a, boundaries, map) ← emitSource profile 0 source a [entry] []
  let failure := a.bytes.length
  let a := a.emitZeroReturn
  let epilogue := a.bytes.length
  let a := a.emitEpilogue
  let a ← a.resolve source.length map failure epilogue
  if maxCodeImageBytes < a.bytes.length then .error .imageTooLarge
  else do
    let stop ← tryU32 a.bytes.length
    let image : CodeImage :=
      { bytes := a.bytes
        relocations := []
        entry := 0
        boundaries := boundaries ++ [stop]
        instructionMap := map
        source := source
        branches := a.branches
        profile := profile }
    image.validate.mapError .invalidImage
    .ok image

end KernelAx.Cbpf.Translate

namespace KernelAx.Cbpf

/-- `Program::translate_with_profile`. -/
def Program.translate (program : Program) (profile : InputProfile) :
    Except Translate.TranslationError Translate.CodeImage :=
  Translate.translateProgram program.instructions profile

end KernelAx.Cbpf
