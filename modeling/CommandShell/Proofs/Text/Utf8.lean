import CommandShell.Text.Utf8
import Mathlib.Algebra.Group.Nat.Defs
import Mathlib.Tactic.SplitIfs

/-!
# Text survives its bytes

Reading takes off the bytes of a character what writing put there: the first byte announces how many
follow and the bounds keep out exactly what writing never produces. A line feed is one byte, which
occurs in no other character; so cutting bytes at line feeds cuts no character.
-/

namespace CommandShell.Utf8

theorem continued_cons {share low high count value : Nat} (hlow : low ≤ value)
    (hhigh : value ≤ high) (hbyte : value < 256) (rest : Bytes) :
    continued share low high (count + 1) (UInt8.ofNat value :: rest) =
      continued (share * 0x40 + (value - 0x80)) 0x80 0xBF count rest := by
  have hvalue : (UInt8.ofNat value).toNat = value := by
    rw [UInt8.toNat_ofNat', Nat.mod_eq_of_lt hbyte]
  rw [continued, hvalue, if_pos (by simp [hlow, hhigh])]

theorem next_of_lead? {value : Nat} {lead : Lead} (hbyte : value < 256)
    (hlead : lead? value = some lead) (rest : Bytes) :
    next (UInt8.ofNat value) rest =
      ((continued lead.share lead.low lead.high lead.tails rest).1.map Char.ofNat,
        (continued lead.share lead.low lead.high lead.tails rest).2) := by
  have hvalue : (UInt8.ofNat value).toNat = value := by
    rw [UInt8.toNat_ofNat', Nat.mod_eq_of_lt hbyte]
  simp only [next, hvalue, hlead]

/-- The first byte of a character in two bytes announces the share that it carries. -/
theorem lead?_of_two {code : Nat} (hlow : 0x7F < code) (hhigh : code ≤ 0x7FF) :
    lead? (code / 64 % 32 + 192) = some { share := code / 64, tails := 1 } := by
  have hshare : code / 64 % 32 + 192 - 0xC0 = code / 64 := by omega
  rw [lead?, if_neg (by omega), if_neg (by omega), if_pos (by omega), hshare]

/-- In three bytes the bounds of the second one keep out long forms and surrogates. -/
theorem lead?_of_three {code : Nat} (hlow : 0x7FF < code) (hhigh : code ≤ 0xFFFF)
    (hvalid : code < 0xD800 ∨ 0xDFFF < code) :
    ∃ lead, lead? (code / 4096 % 16 + 224) = some lead ∧ lead.share = code / 4096 ∧
      lead.tails = 2 ∧ lead.low ≤ code / 64 % 64 + 128 ∧ code / 64 % 64 + 128 ≤ lead.high := by
  by_cases hfirst : code / 4096 = 0
  · refine ⟨{ share := 0, tails := 2, low := 0xA0 }, ?_, hfirst.symm, rfl, ?_, ?_⟩
    · rw [lead?, if_neg (by omega), if_neg (by omega), if_neg (by omega), if_pos (by omega)]
    · change 0xA0 ≤ _
      omega
    · change _ ≤ 0xBF
      omega
  · by_cases hsurrogate : code / 4096 = 0xD
    · refine ⟨{ share := 0xD, tails := 2, high := 0x9F }, ?_, hsurrogate.symm, rfl, ?_, ?_⟩
      · rw [lead?, if_neg (by omega), if_neg (by omega), if_neg (by omega), if_neg (by omega),
          if_pos (by omega)]
      · change 0x80 ≤ _
        omega
      · change _ ≤ 0x9F
        omega
    · have hshare : code / 4096 % 16 + 224 - 0xE0 = code / 4096 := by omega
      refine ⟨{ share := code / 4096, tails := 2 }, ?_, rfl, rfl, ?_, ?_⟩
      · rw [lead?, if_neg (by omega), if_neg (by omega), if_neg (by omega), if_neg (by omega),
          if_neg (by omega), if_pos (by omega), hshare]
      · change 0x80 ≤ _
        omega
      · change _ ≤ 0xBF
        omega

/-- In four bytes they keep out long forms and what lies beyond the last code point. -/
theorem lead?_of_four {code : Nat} (hlow : 0xFFFF < code) (hhigh : code < 0x110000) :
    ∃ lead, lead? (code / 262144 % 8 + 240) = some lead ∧ lead.share = code / 262144 ∧
      lead.tails = 3 ∧ lead.low ≤ code / 4096 % 64 + 128 ∧ code / 4096 % 64 + 128 ≤ lead.high := by
  by_cases hfirst : code / 262144 = 0
  · refine ⟨{ share := 0, tails := 3, low := 0x90 }, ?_, hfirst.symm, rfl, ?_, ?_⟩
    · rw [lead?, if_neg (by omega), if_neg (by omega), if_neg (by omega), if_neg (by omega),
        if_neg (by omega), if_neg (by omega), if_pos (by omega)]
    · change 0x90 ≤ _
      omega
    · change _ ≤ 0xBF
      omega
  · by_cases hlast : code / 262144 = 4
    · refine ⟨{ share := 4, tails := 3, high := 0x8F }, ?_, hlast.symm, rfl, ?_, ?_⟩
      · rw [lead?, if_neg (by omega), if_neg (by omega), if_neg (by omega), if_neg (by omega),
          if_neg (by omega), if_neg (by omega), if_neg (by omega), if_neg (by omega),
          if_pos (by omega)]
      · change 0x80 ≤ _
        omega
      · change _ ≤ 0x8F
        omega
    · have hshare : code / 262144 % 8 + 240 - 0xF0 = code / 262144 := by omega
      refine ⟨{ share := code / 262144, tails := 3 }, ?_, rfl, rfl, ?_, ?_⟩
      · rw [lead?, if_neg (by omega), if_neg (by omega), if_neg (by omega), if_neg (by omega),
          if_neg (by omega), if_neg (by omega), if_neg (by omega), if_pos (by omega), hshare]
      · change 0x80 ≤ _
        omega
      · change _ ≤ 0xBF
        omega

theorem next_utf8EncodeChar (character : Char) :
    ∃ byte tail, String.utf8EncodeChar character = byte :: tail ∧
      ∀ rest, next byte (tail ++ rest) = (some character, rest) := by
  have hcharacter : Char.ofNat character.val.toNat = character := Char.ofNat_toNat character
  have hvalid : character.val.toNat < 0xD800 ∨
      0xDFFF < character.val.toNat ∧ character.val.toNat < 0x110000 := character.valid
  unfold String.utf8EncodeChar
  generalize character.val.toNat = code at *
  simp only
  split_ifs with hone htwo hthree
  · refine ⟨_, _, rfl, fun rest => ?_⟩
    have hlead : lead? code = some { share := code, tails := 0 } := by
      rw [lead?, if_pos (by omega)]
    rw [next_of_lead? (by omega) hlead]
    simp [continued, hcharacter]
  · refine ⟨_, _, rfl, fun rest => ?_⟩
    have hcode : code / 64 * 0x40 + (code % 64 + 128 - 0x80) = code := by omega
    rw [next_of_lead? (by omega) (lead?_of_two (by omega) htwo)]
    simp only [List.cons_append, List.nil_append]
    rw [continued_cons (by omega) (by omega) (by omega), continued, hcode, Option.map_some,
      hcharacter]
  · refine ⟨_, _, rfl, fun rest => ?_⟩
    have hcode : (code / 4096 * 0x40 + (code / 64 % 64 + 128 - 0x80)) * 0x40 +
        (code % 64 + 128 - 0x80) = code := by omega
    obtain ⟨lead, hlead, hshare, htails, hlow, hhigh⟩ :=
      lead?_of_three (by omega) hthree (by omega)
    rw [next_of_lead? (by omega) hlead, hshare, htails]
    simp only [List.cons_append, List.nil_append]
    rw [continued_cons hlow hhigh (by omega), continued_cons (by omega) (by omega) (by omega),
      continued, hcode, Option.map_some, hcharacter]
  · refine ⟨_, _, rfl, fun rest => ?_⟩
    have hcode : ((code / 262144 * 0x40 + (code / 4096 % 64 + 128 - 0x80)) * 0x40 +
        (code / 64 % 64 + 128 - 0x80)) * 0x40 + (code % 64 + 128 - 0x80) = code := by omega
    have hfour : 0xFFFF < code := by omega
    have hlast : code < 0x110000 := by omega
    obtain ⟨lead, hlead, hshare, htails, hlow, hhigh⟩ := lead?_of_four hfour hlast
    rw [next_of_lead? (by omega) hlead, hshare, htails]
    simp only [List.cons_append, List.nil_append]
    rw [continued_cons hlow hhigh (by omega), continued_cons (by omega) (by omega) (by omega),
      continued_cons (by omega) (by omega) (by omega), continued, hcode, Option.map_some,
      hcharacter]

theorem characters_encode (text : Text) : characters (encode text) = text.map some := by
  induction text with
  | nil => rw [encode, List.flatMap_nil, characters, List.map_nil]
  | cons character rest ih =>
      obtain ⟨byte, tail, hbytes, hnext⟩ := next_utf8EncodeChar character
      have hencode : encode (character :: rest) = byte :: (tail ++ encode rest) := by
        rw [encode, List.flatMap_cons, hbytes, List.cons_append, ← encode]
      rw [hencode, characters, hnext, List.map_cons, ih]

theorem decodeLossy_encode (text : Text) : decodeLossy (encode text) = text := by
  rw [decodeLossy, characters_encode, List.map_map]
  exact List.map_id text

theorem decode?_encode (text : Text) : decode? (encode text) = some text := by
  have hwhole : text.mapM some = some (text.map id) := List.mapM_pure
  rw [decode?, characters_encode, List.mapM_map]
  exact hwhole.trans (congrArg some (List.map_id text))

theorem encode_injective : Function.Injective encode :=
  Function.LeftInverse.injective decodeLossy_encode

/-! ### Characters of a single byte -/

/-- The first byte that continues a character bounds its code point on both sides. -/
theorem bounds_of_continued {share low high count value : Nat} {bytes rest : Bytes}
    (hfound : continued share low high (count + 1) bytes = (some value, rest)) :
    (share * 0x40 + (low - 0x80)) * 0x40 ^ count ≤ value ∧
      value < (share * 0x40 + (high - 0x80) + 1) * 0x40 ^ count := by
  induction count generalizing share low high bytes with
  | zero =>
      cases bytes with
      | nil => cases hfound
      | cons byte others =>
          rw [continued] at hfound
          split at hfound
          · next hbounds =>
            simp only [Bool.and_eq_true, decide_eq_true_eq] at hbounds
            obtain ⟨hvalue, -⟩ := Prod.mk.inj hfound
            have hvalue := Option.some.inj hvalue
            omega
          · cases hfound
  | succ count ih =>
      cases bytes with
      | nil => cases hfound
      | cons byte others =>
          rw [continued] at hfound
          split at hfound
          · next hbounds =>
            simp only [Bool.and_eq_true, decide_eq_true_eq] at hbounds
            have hshare : share * 0x40 + (low - 0x80) ≤ share * 0x40 + (byte.toNat - 0x80) ∧
                share * 0x40 + (byte.toNat - 0x80) + 1 ≤ share * 0x40 + (high - 0x80) + 1 := by
              omega
            obtain ⟨hlower, hupper⟩ := ih hfound
            generalize share * 0x40 + (byte.toNat - 0x80) = next at *
            have hlowest : next * 0x40 + (0x80 - 0x80) = next * 0x40 := rfl
            have hhighest : next * 0x40 + (0xBF - 0x80) + 1 = (next + 1) * 0x40 := by omega
            rw [hlowest, Nat.mul_assoc, ← Nat.pow_succ'] at hlower
            rw [hhighest, Nat.mul_assoc, ← Nat.pow_succ'] at hupper
            exact ⟨Nat.le_trans (Nat.mul_le_mul_right _ hshare.1) hlower,
              Nat.lt_of_lt_of_le hupper (Nat.mul_le_mul_right _ hshare.2)⟩
          · cases hfound

/-- Several bytes stand for a character beyond the first `0x80`. -/
theorem isValidChar_of_lead? {byte count value : Nat} {lead : Lead}
    (hlead : lead? byte = some lead) (htails : lead.tails = count + 1)
    (hlower : (lead.share * 0x40 + (lead.low - 0x80)) * 0x40 ^ count ≤ value)
    (hupper : value < (lead.share * 0x40 + (lead.high - 0x80) + 1) * 0x40 ^ count) :
    0x80 ≤ value ∧ value.isValidChar := by
  unfold lead? at hlead
  unfold Nat.isValidChar
  split_ifs at hlead <;> obtain rfl := Option.some.inj hlead
  · cases htails
  all_goals
    obtain rfl := Nat.succ.inj htails
    simp only at hlower hupper
    omega

/-- A byte below `0x80` stands for a character of its own, and each other one for none below. -/
theorem next_cases {byte : UInt8} {rest : Bytes} {character : Char}
    (hnext : (next byte rest).1 = some character) :
    byte.toNat < 0x80 ∧ character = Char.ofNat byte.toNat ∨ 0x80 ≤ character.toNat := by
  unfold next at hnext
  split at hnext
  · cases hnext
  · next lead hlead =>
    obtain ⟨value, hvalue, rfl⟩ := Option.map_eq_some_iff.mp hnext
    cases htails : lead.tails with
    | zero =>
        rw [htails, continued] at hvalue
        obtain rfl := Option.some.inj hvalue
        unfold lead? at hlead
        split_ifs at hlead with hascii <;> obtain rfl := Option.some.inj hlead
        · exact .inl ⟨hascii, rfl⟩
        all_goals cases htails
    | succ count =>
        rw [htails] at hvalue
        obtain ⟨hlower, hupper⟩ := bounds_of_continued (Prod.ext hvalue rfl)
        obtain ⟨hbeyond, hvalid⟩ := isValidChar_of_lead? hlead htails hlower hupper
        rw [Char.ofNat, dif_pos hvalid]
        exact .inr hbeyond

theorem toNat_ofNat_of_lt {code : Nat} (hcode : code < 0x80) : (Char.ofNat code).toNat = code := by
  have hvalid : code.isValidChar := .inl (by omega)
  rw [Char.ofNat, dif_pos hvalid]
  rfl

/-- Decoding brings in no character below `0x80`. -/
theorem mem_of_mem_decodeLossy {byte : UInt8} (hbyte : byte.toNat < 0x80) {bytes : Bytes}
    (hmember : Char.ofNat byte.toNat ∈ decodeLossy bytes) : byte ∈ bytes := by
  have htoNat := toNat_ofNat_of_lt hbyte
  obtain ⟨found, hfound, hcharacter⟩ := List.mem_map.mp hmember
  have hsome : found = some (Char.ofNat byte.toNat) := by
    cases found with
    | none =>
        have hcode : replacement.toNat = byte.toNat := by
          rw [← htoNat, ← hcharacter]
          rfl
        have hbeyond : 0x80 ≤ replacement.toNat := by decide
        omega
    | some character => exact congrArg some hcharacter
  subst hsome
  clear hmember hcharacter
  induction bytes using characters.induct with
  | case1 => simp [characters] at hfound
  | case2 first rest ih =>
      rw [characters] at hfound
      rcases List.mem_cons.mp hfound with hfirst | hothers
      · rcases next_cases hfirst.symm with ⟨hascii, hsame⟩ | hbeyond
        · have hequal : byte.toNat = first.toNat := by
            rw [← htoNat, hsame, toNat_ofNat_of_lt hascii]
          rw [UInt8.toNat_inj.mp hequal]
          exact List.mem_cons_self
        · omega
      · exact List.mem_cons_of_mem first ((next_suffix first rest).subset (ih hothers))

theorem feed_mem_of_mem_decodeLossy {bytes : Bytes} (hmember : '\n' ∈ decodeLossy bytes) :
    10 ∈ bytes :=
  mem_of_mem_decodeLossy (by decide) hmember

theorem nul_mem_of_mem_decodeLossy {bytes : Bytes} (hmember : '\x00' ∈ decodeLossy bytes) :
    0 ∈ bytes :=
  mem_of_mem_decodeLossy (by decide) hmember

/-- A byte below `0x80` stands for a character of its own and is part of no other. -/
theorem eq_ofNat_of_mem_utf8EncodeChar {byte : UInt8} (hbyte : byte.toNat < 0x80)
    {character : Char} (hmember : byte ∈ String.utf8EncodeChar character) :
    character = Char.ofNat byte.toNat := by
  have htoNat : ∀ value < 256, byte = UInt8.ofNat value → value = byte.toNat := by
    intro value hvalue hvalueByte
    have hcongr := congrArg UInt8.toNat hvalueByte
    rw [UInt8.toNat_ofNat', Nat.mod_eq_of_lt hvalue] at hcongr
    exact hcongr.symm
  have hcharacter : Char.ofNat character.val.toNat = character := Char.ofNat_toNat character
  unfold String.utf8EncodeChar at hmember
  generalize character.val.toNat = code at *
  simp only at hmember
  split_ifs at hmember with hone htwo hthree
  · rw [← hcharacter, htoNat code (by omega) (List.mem_singleton.mp hmember)]
  · simp only [List.mem_cons, List.not_mem_nil, or_false] at hmember
    rcases hmember with hfound | hfound <;> exact absurd (htoNat _ (by omega) hfound) (by omega)
  · simp only [List.mem_cons, List.not_mem_nil, or_false] at hmember
    rcases hmember with hfound | hfound | hfound <;>
      exact absurd (htoNat _ (by omega) hfound) (by omega)
  · simp only [List.mem_cons, List.not_mem_nil, or_false] at hmember
    rcases hmember with hfound | hfound | hfound | hfound <;>
      exact absurd (htoNat _ (by omega) hfound) (by omega)

theorem feed_of_mem_utf8EncodeChar {character : Char}
    (hmember : 10 ∈ String.utf8EncodeChar character) : character = '\n' :=
  eq_ofNat_of_mem_utf8EncodeChar (by decide) hmember

theorem return_of_mem_utf8EncodeChar {character : Char}
    (hmember : 13 ∈ String.utf8EncodeChar character) : character = '\r' :=
  eq_ofNat_of_mem_utf8EncodeChar (by decide) hmember

theorem mem_encode_iff {byte : UInt8} (hbyte : byte.toNat < 0x80) {text : Text} :
    byte ∈ encode text ↔ Char.ofNat byte.toNat ∈ text := by
  constructor
  · intro hmember
    obtain ⟨character, hcharacter, hwithin⟩ := List.mem_flatMap.mp hmember
    rwa [← eq_ofNat_of_mem_utf8EncodeChar hbyte hwithin]
  · intro hmember
    refine List.mem_flatMap.mpr ⟨_, hmember, ?_⟩
    have hcode : (Char.ofNat byte.toNat).val.toNat = byte.toNat := toNat_ofNat_of_lt hbyte
    have hone : byte.toNat ≤ 0x7F := by omega
    rw [String.utf8EncodeChar, hcode]
    simp [hone]

theorem feed_not_mem_encode {text : Text} (hnone : '\n' ∉ text) : 10 ∉ encode text :=
  mt (mem_encode_iff (by decide)).mp hnone

theorem nul_mem_encode_iff {text : Text} : 0 ∈ encode text ↔ '\x00' ∈ text :=
  mem_encode_iff (by decide)

theorem equals_mem_encode_iff {text : Text} : 61 ∈ encode text ↔ '=' ∈ text :=
  mem_encode_iff (by decide)

/-! ### Bytes in front of a text

Written text starts with a byte that continues no character, so a character that is broken off in
front of it stays broken off, and nothing of the text is lost to it.
-/

theorem lead?_continuation {byte : Nat} {lead : Lead} (hlead : lead? byte = some lead) :
    (byte < 0x80 ∨ 0xBF < byte) ∧ 0x80 ≤ lead.low ∧ lead.high ≤ 0xBF := by
  unfold lead? at hlead
  split_ifs at hlead <;> obtain rfl := Option.some.inj hlead
  all_goals
    simp only
    omega

theorem not_continuation_of_head?_encode {text : Text} :
    ∀ byte ∈ (encode text).head?, byte.toNat < 0x80 ∨ 0xBF < byte.toNat := by
  intro byte hbyte
  cases text with
  | nil => cases hbyte
  | cons character rest =>
      obtain ⟨first, tail, hbytes, hnext⟩ := next_utf8EncodeChar character
      rw [encode, List.flatMap_cons, hbytes, List.cons_append, List.head?_cons] at hbyte
      obtain rfl := Option.some.inj hbyte
      have hfound := hnext []
      rw [next] at hfound
      split at hfound
      · cases hfound
      · next lead hlead => exact (lead?_continuation hlead).1

theorem continued_append {share low high count : Nat} (hlow : 0x80 ≤ low) (hhigh : high ≤ 0xBF)
    (front : Bytes) {back : Bytes}
    (hback : ∀ byte ∈ back.head?, byte.toNat < 0x80 ∨ 0xBF < byte.toNat) :
    continued share low high count (front ++ back) =
      ((continued share low high count front).1,
        (continued share low high count front).2 ++ back) := by
  induction count generalizing share low high front with
  | zero => rfl
  | succ count ih =>
      cases front with
      | nil =>
          cases back with
          | nil => rfl
          | cons byte rest =>
              have hbyte := hback byte rfl
              have hout : ¬ (low ≤ byte.toNat ∧ byte.toNat ≤ high) := by omega
              rw [List.nil_append, continued, continued, if_neg (by simpa using hout)]
              rfl
      | cons byte rest =>
          rw [List.cons_append, continued, continued]
          split
          · exact ih (Nat.le_refl _) (Nat.le_refl _) rest
          · rfl

theorem next_append (byte : UInt8) (front : Bytes) {back : Bytes}
    (hback : ∀ byte ∈ back.head?, byte.toNat < 0x80 ∨ 0xBF < byte.toNat) :
    next byte (front ++ back) = ((next byte front).1, (next byte front).2 ++ back) := by
  unfold next
  split
  · rfl
  · next lead hlead =>
    obtain ⟨-, hlow, hhigh⟩ := lead?_continuation hlead
    simp only [continued_append hlow hhigh front hback]

theorem characters_append (front : Bytes) {back : Bytes}
    (hback : ∀ byte ∈ back.head?, byte.toNat < 0x80 ∨ 0xBF < byte.toNat) :
    characters (front ++ back) = characters front ++ characters back := by
  induction front using characters.induct with
  | case1 => rw [List.nil_append, characters, List.nil_append]
  | case2 byte rest ih =>
      rw [List.cons_append, characters, characters, next_append byte rest hback, ih,
        List.cons_append]

theorem decodeLossy_append_encode (front : Bytes) (text : Text) :
    decodeLossy (front ++ encode text) = decodeLossy front ++ text := by
  rw [decodeLossy, characters_append front not_continuation_of_head?_encode, List.map_append,
    ← decodeLossy, ← decodeLossy, decodeLossy_encode]

theorem decodeLossy_eq_nil_iff {bytes : Bytes} : decodeLossy bytes = [] ↔ bytes = [] := by
  cases bytes with
  | nil => simp [decodeLossy, characters]
  | cons byte rest => simp [decodeLossy, characters]

end CommandShell.Utf8
