import KernelAx.Cbpf.Entry

/-!
# Classic BPF — soundness of translation validation

What it means for accepted bytes to be trustworthy: the validator's decoder has read the
operations the machine executes (`DecodedFaithfully`), and every invocation returns the
interpreter's value without leaving its memory (`Executes`). Both hold of accepted bytes unless
they contain the unprefixed load `8b 06` at an offset the decoder reads from.

* `validateTranslationBytes_sound_iff` — accepted bytes are trustworthy exactly without it;
* `shortLoad_escapes` — accepted bytes that read outside of the packet and return a wrong value.
-/

namespace KernelAx.Cbpf

open X86

/-- Every operation the validator's decoder reports is the one the bytes encode. -/
def DecodedFaithfully (bytes : List Byte) : Prop :=
  ∀ p o q, Reads bytes p o q → Encodes bytes p o q

/-- Every invocation of the image returns what the interpreter returns, on allowed accesses. -/
def Executes (image : List Byte) (source : List Instruction) (profile : InputProfile) : Prop :=
  ∀ I : Invocation, I.profile = profile →
    ∃ v, evaluate source I.call.input = some v ∧ Leads image I.call.Allowed I.state (Returns I v)

/-- A layout in the machine's decoding executes its source. -/
theorem Layout.executes {image : List Byte} {source : List Instruction} {profile : InputProfile}
    {offsets : List Nat} {failure epilogue stop : Nat}
    (L : Layout (Encodes image) source profile offsets failure epilogue stop)
    (hwf : WellFormed source) (hfit : FitsProfile source profile) :
    Executes image source profile := by
  rintro I rfl
  exact L.correct hwf hfit

theorem noShortLoad_of_decodedFaithfully {bytes : List Byte} (h : DecodedFaithfully bytes) :
    NoShortLoad bytes := by
  intro p hp hshort
  obtain ⟨hread, hdecode⟩ := shortLoad_misread p hshort
  obtain ⟨i, hi, hnamed⟩ := h p _ _ ⟨hp, hread⟩
  rw [hdecode] at hnamed
  cases hi
  simp [Register.toReg] at hnamed

/-- **Accepted bytes are trustworthy exactly when no operation is read from the bytes `8b 06`.** -/
theorem validateTranslationBytes_sound_iff {bytes : List Byte} {source : List Instruction}
    {profile : InputProfile} (h : validateTranslationBytes bytes source profile = .ok ()) :
    DecodedFaithfully bytes ∧ Executes bytes source profile ↔ NoShortLoad bytes := by
  obtain ⟨offsets, hoffsets⟩ : ∃ offsets,
      validateTranslationLayout bytes source profile = .ok offsets := by
    unfold validateTranslationBytes at h
    cases hl : validateTranslationLayout bytes source profile with
    | error e => simp [hl, Except.map] at h
    | ok offsets => exact ⟨offsets, rfl⟩
  obtain ⟨hcontract, failure, epilogue, L⟩ := layout_of_validate hoffsets
  obtain ⟨hwf, hfit⟩ := wellFormed_of_contract hcontract
  constructor
  · intro hsound
    exact noShortLoad_of_decodedFaithfully hsound.1
  · intro hshort
    refine ⟨fun p o q hr => ?_, (L.encodes hshort).executes hwf hfit⟩
    -- the decoder stops at the end of the bytes, so what it reads is what was expected
    rcases L.sweep hr.1 with rfl | ⟨o', q', hd, hsafe⟩
    · have := hr.2
      simp [decodeOperation] at this
    · rw [hr.2] at hd
      cases hd
      exact decodeOperation_faithful hr.2 (hshort p hr.1) hsafe

/-- Returns the first word of the packet. -/
def firstWordSource : List Instruction := [.statement (.ldAbs .word) 0, .statement .retA 0]

/-- The image the translator emits for it, with the prefixed load `41 8b 06` at offset 70. -/
def firstWordImage : List Byte :=
  [0x55, 0x41, 0x54, 0x41, 0x55, 0x41, 0x56, 0x41, 0x57, 0x48, 0x89, 0xe5, 0x48, 0x83, 0xec, 0x40,
    0x49, 0x89, 0xfc, 0x41, 0x89, 0xf5, 0x31, 0xc0, 0x31, 0xc9,
    0x41, 0xbe, 0x00, 0x00, 0x00, 0x00, 0x41, 0x83, 0xfd, 0x04, 0x0f, 0x82, 0x26, 0x00, 0x00, 0x00,
    0x45, 0x89, 0xef, 0x41, 0x83, 0xef, 0x04, 0x45, 0x39, 0xf7, 0x0f, 0x82, 0x16, 0x00, 0x00, 0x00,
    0x4d, 0x01, 0xe6, 0x0f, 0x82, 0x0d, 0x00, 0x00, 0x00, 0x0f, 0xae, 0xe8, 0x41, 0x8b, 0x06, 0x0f,
    0xc8, 0xe9, 0x07, 0x00, 0x00, 0x00, 0x31, 0xc0, 0xe9, 0x00, 0x00, 0x00, 0x00,
    0x48, 0x83, 0xc4, 0x40, 0x41, 0x5f, 0x41, 0x5e, 0x41, 0x5d, 0x41, 0x5c, 0x5d, 0xc3]

def firstWordOffsets : List Nat :=
  [0, 1, 3, 5, 7, 9, 12, 16, 19, 22, 24, 26, 32, 36, 42, 45, 49, 52, 58, 61, 67, 70, 73, 75, 80, 82,
    87, 91, 93, 95, 97, 99, 100, 101]

/-- The pair `8b 06` stands in the image, but no operation is read from it. -/
theorem firstWordImage_sound :
    validateTranslationBytes firstWordImage firstWordSource .packetBytesBigEndian = .ok () ∧
    ShortLoad (firstWordImage.drop 71) ∧ DecodedFaithfully firstWordImage ∧
    Executes firstWordImage firstWordSource .packetBytesBigEndian := by
  have h : validateTranslationBytes firstWordImage firstWordSource .packetBytesBigEndian
      = .ok () := rfl
  have closed : ∀ p ∈ firstWordOffsets,
      ∀ r ∈ decodeOperation p (firstWordImage.drop p), r.2 ∈ firstWordOffsets := by
    decide +kernel
  have prefixed : ∀ p ∈ firstWordOffsets, ¬ (firstWordImage.drop p).take 2 = [0x8b, 0x06] := by
    decide +kernel
  refine ⟨h, rfl, (validateTranslationBytes_sound_iff h).mpr fun p hp => ?_⟩
  exact prefixed p (hp.mem_of_closed closed List.mem_cons_self)

/-! ### Accepted bytes that escape -/

/-- An image of `firstWordSource` whose load lacks its prefix: `8b 06` at offset 70. -/
def shortLoadImage : List Byte :=
  [0x55, 0x41, 0x54, 0x41, 0x55, 0x41, 0x56, 0x41, 0x57, 0x48, 0x89, 0xe5, 0x48, 0x83, 0xec, 0x40,
    0x49, 0x89, 0xfc, 0x41, 0x89, 0xf5, 0x31, 0xc0, 0x31, 0xc9,
    0x41, 0xbe, 0x00, 0x00, 0x00, 0x00, 0x41, 0x83, 0xfd, 0x04, 0x0f, 0x82, 0x25, 0x00, 0x00, 0x00,
    0x45, 0x89, 0xef, 0x41, 0x83, 0xef, 0x04, 0x45, 0x39, 0xf7, 0x0f, 0x82, 0x15, 0x00, 0x00, 0x00,
    0x4d, 0x01, 0xe6, 0x0f, 0x82, 0x0c, 0x00, 0x00, 0x00, 0x0f, 0xae, 0xe8, 0x8b, 0x06, 0x0f, 0xc8,
    0xe9, 0x07, 0x00, 0x00, 0x00, 0x31, 0xc0, 0xe9, 0x00, 0x00, 0x00, 0x00,
    0x48, 0x83, 0xc4, 0x40, 0x41, 0x5f, 0x41, 0x5e, 0x41, 0x5d, 0x41, 0x5c, 0x5d, 0xc3]

theorem firstWord_stack : Apart (0x8000 - 104) 104 0x1000 4 := by
  intro x hx hy
  simp only [InRange] at hx hy
  simp at hx hy
  bv_omega

/-- A four-byte packet at `0x1000`, in memory that is zero everywhere else. -/
def firstWordInvocation : Invocation where
  profile := .packetBytesBigEndian
  bytes := [0, 0, 0, 7]
  metadata := ⟨0, 0, 0, 0, 0, 0, 0, 0⟩
  data := 0x1000
  state :=
    { regs := fun r => match r with | .rdi => 0x1000 | .rsi => 4 | .rsp => 0x8000 | _ => 0
      mem := fun a => if a = 0x1003 then 7 else 0
      cf := none
      zf := none
      ip := .code 0 }
  ip := rfl
  small := by decide
  nowrap := by decide
  packet := by decide
  stack := firstWord_stack
  arguments := fun _ => ⟨rfl, rfl⟩
  context := fun h => by cases h

/-- **Accepted bytes that escape.**  The packet is `00 00 00 07`; the interpreter returns 7. The
image reads four bytes at address 4, where `rsi` points, and returns zero. -/
theorem shortLoad_escapes :
    validateTranslationBytes shortLoadImage firstWordSource .packetBytesBigEndian = .ok () ∧
    evaluate firstWordSource firstWordInvocation.call.input = some 7 ∧
    ¬ firstWordInvocation.call.Allowed ⟨.load, 4, 4⟩ ∧
    (runFor shortLoadImage 31 firstWordInvocation.state).map
        (fun (s, t) => (s.ip, s.reg 32 .rax, decide (⟨.load, 4, 4⟩ ∈ t)))
      = some (.outside 0, 0, true) := by
  refine ⟨rfl, by decide, ?_, by decide +kernel⟩
  show ¬ (_ ∨ _ ∨ _)
  decide

end KernelAx.Cbpf
