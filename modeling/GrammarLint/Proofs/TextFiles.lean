import GrammarLint.Cli.Run
import GrammarLint.Proofs.Walk
import Mathlib.Data.List.Infix

/-!
# Texts in files

A text can be written to a file with a byte order mark or without, and with each of the
three line breaks.  It is read as the same text, and whoever reads the file, to check it,
to show its tree or for the license notice, cannot tell how it was written.
-/

namespace GrammarLint

open Files

namespace Text

namespace Utf8

/-! ## Steps of the decoder -/

section Steps

variable (start : Nat) (found : List Char) (rest : List UInt8) {b b₁ b₂ b₃ : UInt8}
  {payload low high : Nat}

theorem decodeFrom_one (hlead : lead? b.toNat = some ⟨1, payload, low, high⟩) :
    decodeFrom start found (b :: rest) =
      decodeFrom (start + 1) (Char.ofNat payload :: found) rest := by
  simp [decodeFrom, hlead]

theorem decodeFrom_two (hlead : lead? b.toNat = some ⟨2, payload, low, high⟩)
    (h₁ : isTail low high b₁ = true) :
    decodeFrom start found (b :: b₁ :: rest) =
      decodeFrom (start + 2) (Char.ofNat (extend payload b₁) :: found) rest := by
  simp [decodeFrom, hlead, h₁]

theorem decodeFrom_three (hlead : lead? b.toNat = some ⟨3, payload, low, high⟩)
    (h₁ : isTail low high b₁ = true) (h₂ : isTail 0x80 0xBF b₂ = true) :
    decodeFrom start found (b :: b₁ :: b₂ :: rest) =
      decodeFrom (start + 3) (Char.ofNat (extend (extend payload b₁) b₂) :: found) rest := by
  simp [decodeFrom, hlead, h₁, h₂]

theorem decodeFrom_four (hlead : lead? b.toNat = some ⟨4, payload, low, high⟩)
    (h₁ : isTail low high b₁ = true) (h₂ : isTail 0x80 0xBF b₂ = true)
    (h₃ : isTail 0x80 0xBF b₃ = true) :
    decodeFrom start found (b :: b₁ :: b₂ :: b₃ :: rest) =
      decodeFrom (start + 4)
        (Char.ofNat (extend (extend (extend payload b₁) b₂) b₃) :: found) rest := by
  simp [decodeFrom, hlead, h₁, h₂, h₃]

end Steps

/-! ## The bytes of a scalar value -/

theorem toNat_byte {n : Nat} (h : n < 256) : (UInt8.ofNat n).toNat = n := by
  simp [Nat.mod_eq_of_lt h]

theorem isTail_byte {low high n : Nat} (hlow : low ≤ n) (hhigh : n ≤ high) (h : n < 256) :
    isTail low high (UInt8.ofNat n) = true := by
  simp [isTail, toNat_byte h, hlow, hhigh]

theorem isTail_rest (value : Nat) : isTail 0x80 0xBF (UInt8.ofNat (value % 64 + 128)) = true :=
  isTail_byte (by omega) (by omega) (by omega)

theorem extend_byte (payload value : Nat) :
    extend payload (UInt8.ofNat (value % 64 + 128)) = payload * 64 + value % 64 := by
  rw [extend, toNat_byte (by omega)]
  omega

theorem lead?_one {value : Nat} (h : value < 0x80) : 
    lead? (UInt8.ofNat value).toNat = some ⟨1, value, 0, 0⟩ := by
  rw [toNat_byte (by omega), lead?, if_pos h]

theorem lead?_two {value : Nat} (hlow : 0x80 ≤ value) (hhigh : value < 0x800) :
    lead? (UInt8.ofNat (value / 64 % 32 + 192)).toNat = some ⟨2, value / 64, 0x80, 0xBF⟩ := by
  have hpayload : value / 64 % 32 + 192 - 0xC0 = value / 64 := by omega
  rw [toNat_byte (by omega), lead?, if_neg (by omega), if_neg (by omega), if_pos (by omega),
    hpayload]

theorem lead?_three {value : Nat} (hlow : 0x800 ≤ value) (hhigh : value < 0x10000)
    (hscalar : value < 0xD800 ∨ 0xDFFF < value) :
    ∃ low high, lead? (UInt8.ofNat (value / 4096 % 16 + 224)).toNat =
        some ⟨3, value / 4096, low, high⟩ ∧
      isTail low high (UInt8.ofNat (value / 64 % 64 + 128)) = true := by
  have hpayload : value / 4096 % 16 = value / 4096 := by omega
  rw [toNat_byte (by omega), lead?, if_neg (by omega), if_neg (by omega), if_neg (by omega)]
  split
  · have hnone : 0 = value / 4096 := by omega
    exact ⟨0xA0, 0xBF, by rw [← hnone], isTail_byte (by omega) (by omega) (by omega)⟩
  · split
    · have hlast : 0xD = value / 4096 := by omega
      exact ⟨0x80, 0x9F, by rw [← hlast], isTail_byte (by omega) (by omega) (by omega)⟩
    · rw [if_pos (by omega), hpayload, Nat.add_sub_cancel]
      exact ⟨0x80, 0xBF, rfl, isTail_rest _⟩

theorem lead?_four {value : Nat} (hlow : 0x10000 ≤ value) (hhigh : value < 0x110000) :
    ∃ low high, lead? (UInt8.ofNat (value / 262144 % 8 + 240)).toNat =
        some ⟨4, value / 262144, low, high⟩ ∧
      isTail low high (UInt8.ofNat (value / 4096 % 64 + 128)) = true := by
  have hpayload : value / 262144 % 8 = value / 262144 := by omega
  rw [toNat_byte (by omega), lead?, if_neg (by omega), if_neg (by omega), if_neg (by omega),
    if_neg (by omega), if_neg (by omega), if_neg (by omega)]
  split
  · have hnone : 0 = value / 262144 := by omega
    exact ⟨0x90, 0xBF, by rw [← hnone], isTail_byte (by omega) (by omega) (by omega)⟩
  · split
    · rw [hpayload, Nat.add_sub_cancel]
      exact ⟨0x80, 0xBF, rfl, isTail_rest _⟩
    · have hlast : 4 = value / 262144 := by omega
      rw [if_pos (by omega)]
      exact ⟨0x80, 0x8F, by rw [← hlast], isTail_byte (by omega) (by omega) (by omega)⟩

theorem decodeFrom_encodeChar (start : Nat) (found : List Char) (c : Char) (rest : List UInt8) :
    decodeFrom start found (String.utf8EncodeChar c ++ rest) =
      decodeFrom (start + (String.utf8EncodeChar c).length) (c :: found) rest := by
  have hvalid : c.toNat < 0xD800 ∨ 0xDFFF < c.toNat ∧ c.toNat < 0x110000 := c.valid
  have hchar {n : Nat} (h : n = c.toNat) : Char.ofNat n = c := h ▸ Char.ofNat_toNat c
  rw [String.utf8EncodeChar]
  change decodeFrom start found (_ ++ rest) = decodeFrom (start + List.length _) _ _
  simp only [show c.val.toNat = c.toNat from rfl]
  split
  · rw [List.singleton_append, decodeFrom_one _ _ _ (lead?_one (by omega)), hchar rfl]
    rfl
  · split
    · rw [List.cons_append, List.singleton_append,
        decodeFrom_two _ _ _ (lead?_two (by omega) (by omega)) (isTail_rest _), hchar]
      · rfl
      · rw [extend_byte]
        omega
    · split
      · obtain ⟨low, high, hlead, htail⟩ := @lead?_three c.toNat (by omega) (by omega) (by omega)
        rw [List.cons_append, List.cons_append, List.singleton_append,
          decodeFrom_three _ _ _ hlead htail (isTail_rest _), hchar]
        · rfl
        · rw [extend_byte, extend_byte]
          omega
      · obtain ⟨low, high, hlead, htail⟩ := @lead?_four c.toNat (by omega) (by omega)
        rw [List.cons_append, List.cons_append, List.cons_append, List.singleton_append,
          decodeFrom_four _ _ _ hlead htail (isTail_rest _) (isTail_rest _), hchar]
        · rfl
        · rw [extend_byte, extend_byte, extend_byte]
          omega

@[simp] theorem encode_nil : encode [] = [] := rfl

theorem encode_cons (c : Char) (chars : List Char) :
    encode (c :: chars) = String.utf8EncodeChar c ++ encode chars := rfl

theorem decodeFrom_encode (start : Nat) (found chars : List Char) :
    decodeFrom start found (encode chars) = .ok (found.reverse ++ chars) := by
  induction chars generalizing start found with
  | nil => simp [decodeFrom]
  | cons c chars ih =>
      rw [encode_cons, decodeFrom_encodeChar, ih]
      simp

theorem decode_encode (chars : List Char) : decode (encode chars) = .ok chars :=
  decodeFrom_encode 0 [] chars

theorem prefix_of_decodeFrom {start : Nat} {found chars : List Char} {bytes : List UInt8}
    (h : decodeFrom start found bytes = .ok chars) : found.reverse <+: chars := by
  have hfound {c : Char} {found : List Char} (h : (c :: found).reverse <+: chars) :
      found.reverse <+: chars :=
    (List.reverse_cons ▸ List.prefix_append found.reverse [c]).trans h
  fun_induction decodeFrom start found bytes with
  | case1 =>
      cases h
      exact List.prefix_refl _
  | case3 | case6 | case9 | case12 =>
      rename_i ih
      exact hfound (ih h)
  | _ => cases h

end Utf8

/-! ## The byte order mark -/

def markChar : Char := '\uFEFF'

theorem encode_startsWithMark {chars : List Char}
    (h : byteOrderMark <+: Utf8.encode chars) : chars.head? = some markChar := by
  obtain ⟨more, hmore⟩ := h
  have hdecode : Utf8.decodeFrom 0 [] (String.utf8EncodeChar markChar ++ more) = .ok chars := by
    rw [← Utf8.decode_encode chars, ← hmore]
    rfl
  rw [Utf8.decodeFrom_encodeChar] at hdecode
  obtain ⟨rest, rfl⟩ := Utf8.prefix_of_decodeFrom hdecode
  rfl

theorem encode_eq_nil_of_prefix {chars : List Char} (h : Utf8.encode chars <+: byteOrderMark) :
    Utf8.encode chars = [] ∨ Utf8.encode chars = byteOrderMark := by
  have hdecode := Utf8.decode_encode chars
  have hinits : Utf8.encode chars ∈ byteOrderMark.inits := (List.mem_inits _ _).2 h
  have hparts : byteOrderMark.inits = [[], [0xEF], [0xEF, 0xBB], byteOrderMark] := rfl
  simp only [hparts, List.mem_cons, List.not_mem_nil, or_false] at hinits
  rcases hinits with hnone | hone | htwo | hall
  · exact .inl hnone
  · rw [hone] at hdecode
    cases hdecode
  · rw [htwo] at hdecode
    cases hdecode
  · exact .inr hall

theorem dropMark_encode {chars : List Char} (h : chars.head? ≠ some markChar) :
    dropMark (Utf8.encode chars) = Utf8.encode chars := by
  have hmark : ¬byteOrderMark <+: Utf8.encode chars := fun hmark => h (encode_startsWithMark hmark)
  rw [dropMark, if_neg (by rwa [List.isPrefixOf_iff_prefix])]
  split
  · rename_i hprefix
    rw [List.isPrefixOf_iff_prefix] at hprefix
    rcases encode_eq_nil_of_prefix hprefix with hnone | hall
    · exact hnone.symm
    · exact absurd (hall ▸ List.prefix_refl _) hmark
  · rfl

theorem dropMark_mark (bytes : List UInt8) : dropMark (byteOrderMark ++ bytes) = bytes := by
  rw [dropMark, if_pos (List.isPrefixOf_iff_prefix.2 (List.prefix_append _ _))]
  rfl

/-! ## Line breaks -/

inductive LineEnd where
  | lineFeed
  | carriageReturn
  | both
  deriving DecidableEq, Repr

def LineEnd.chars : LineEnd → List Char
  | .lineFeed => ['\n']
  | .carriageReturn => ['\r']
  | .both => ['\r', '\n']

def withEnds (ending : LineEnd) (chars : List Char) : List Char :=
  chars.flatMap fun c => if c = '\n' then ending.chars else [c]

theorem withEnds_cons (ending : LineEnd) (c : Char) (chars : List Char) :
    withEnds ending (c :: chars) =
      (if c = '\n' then ending.chars else [c]) ++ withEnds ending chars := rfl

theorem withEnds_lineFeed (chars : List Char) : withEnds .lineFeed chars = chars := by
  induction chars with
  | nil => rfl
  | cons c chars ih =>
      rw [withEnds_cons, ih]
      split
      · rename_i hbreak
        rw [hbreak]
        rfl
      · rfl

theorem joinBreaks_plain (found : List Char) {c : Char} (h : c ≠ '\r') (chars : List Char) :
    joinBreaks found (c :: chars) = joinBreaks (c :: found) chars := by
  rw [joinBreaks]
  · exact fun _ hc _ => h hc
  · exact h

theorem joinBreaks_return (found : List Char) {chars : List Char} (h : chars.head? ≠ some '\n') :
    joinBreaks found ('\r' :: chars) = joinBreaks ('\n' :: found) chars := by
  rw [joinBreaks]
  rintro rest rfl
  exact h rfl

theorem head?_withEnds_carriageReturn (chars : List Char) :
    (withEnds .carriageReturn chars).head? ≠ some '\n' := by
  cases chars with
  | nil => nofun
  | cons c chars =>
      rw [withEnds_cons]
      split
      · exact fun h => absurd (Option.some.inj h) (by decide)
      · rename_i hbreak
        exact fun h => hbreak (Option.some.inj h)

theorem joinBreaks_withEnds (ending : LineEnd) (found : List Char) {chars : List Char}
    (h : '\r' ∉ chars) : joinBreaks found (withEnds ending chars) = found.reverse ++ chars := by
  induction chars generalizing found with
  | nil => simp [withEnds, joinBreaks]
  | cons c chars ih =>
      rw [List.mem_cons, not_or] at h
      have hmore (found : List Char) := ih found h.2
      rw [withEnds_cons]
      by_cases hbreak : c = '\n'
      · rw [if_pos hbreak, hbreak]
        cases ending with
        | lineFeed =>
            rw [LineEnd.chars, List.singleton_append, joinBreaks_plain found (by decide), hmore]
            simp
        | both =>
            rw [LineEnd.chars, List.cons_append, List.singleton_append, joinBreaks, hmore]
            simp
        | carriageReturn =>
            rw [LineEnd.chars, List.singleton_append,
              joinBreaks_return found (head?_withEnds_carriageReturn chars), hmore]
            simp
      · rw [if_neg hbreak, List.singleton_append, joinBreaks_plain found (Ne.symm h.1), hmore]
        simp

/-! ## Files -/

def fileBytes (marked : Bool) (ending : LineEnd) (chars : List Char) : List UInt8 :=
  (if marked then byteOrderMark else []) ++ Utf8.encode (withEnds ending chars)

theorem head?_withEnds {ending : LineEnd} {chars : List Char} {c : Char}
    (h : (withEnds ending chars).head? = some c) (hreturn : c ≠ '\r') : chars.head? = some c := by
  cases chars with
  | nil => cases h
  | cons d chars =>
      rw [withEnds_cons] at h
      split at h
      · rename_i hbreak
        cases ending with
        | lineFeed => exact hbreak ▸ h
        | both => exact absurd (Option.some.inj h).symm hreturn
        | carriageReturn => exact absurd (Option.some.inj h).symm hreturn
      · exact h

theorem decodeFile_fileBytes (marked : Bool) (ending : LineEnd) {text : String}
    (hreturn : '\r' ∉ text.toList) (hmark : text.toList.head? ≠ some markChar) :
    decodeFile (fileBytes marked ending text.toList) = .ok text := by
  have hdrop : dropMark (fileBytes marked ending text.toList) =
      Utf8.encode (withEnds ending text.toList) := by
    cases marked with
    | true => exact dropMark_mark _
    | false => exact dropMark_encode fun h => hmark (head?_withEnds h (by decide))
  rw [decodeFile, hdrop, Utf8.decode_encode]
  simp only
  rw [joinBreaks_withEnds ending [] hreturn, List.reverse_nil, List.nil_append,
    String.ofList_toList]

end Text

open Text

namespace Files.FileSystem

/-! ## The content of a file -/

def store (fs : FileSystem) (place : List String) (bytes : List UInt8) : FileSystem :=
  { fs with
    entries := fs.entries.map fun entry =>
      (entry.1, if entry.1 = place then .file bytes else entry.2) }

section Store

variable {fs : FileSystem} {place : List String} {old : List UInt8}
  (hfile : fs.get? place = some (.file old)) (bytes : List UInt8)

theorem lookup_store (other : List String) :
    (fs.store place bytes).entries.lookup other =
      if other = place then (fs.entries.lookup other).map fun _ => .file bytes
      else fs.entries.lookup other := by
  simp only [store]
  induction fs.entries with
  | nil => simp
  | cons entry entries ih =>
      obtain ⟨name, content⟩ := entry
      by_cases hname : other = name
      · subst hname
        by_cases hplace : other = place <;> simp [hplace]
      · have hne : (other == name) = false := beq_false_of_ne hname
        simp only [List.map_cons, List.lookup_cons, hne]
        exact ih

theorem any_store (p : List String → Bool) :
    ((fs.store place bytes).entries.any fun entry => p entry.1) =
      fs.entries.any fun entry => p entry.1 := by
  simp [store, List.any_map, Function.comp_def]

include hfile

theorem lookup_of_get? : fs.entries.lookup place = some (.file old) := by
  rw [get?] at hfile
  split at hfile
  · simp_all
  · split at hfile <;> cases hfile

theorem get?_store (other : List String) :
    (fs.store place bytes).get? other =
      if other = place then some (.file bytes) else fs.get? other := by
  rw [get?, get?, lookup_store, any_store bytes (isAbove other)]
  by_cases hother : other = place
  · simp [hother, lookup_of_get? hfile]
  · simp only [if_neg hother]
    rfl

theorem follow_store (start parts : List String) :
    (fs.store place bytes).follow start parts = fs.follow start parts := by
  induction parts generalizing start with
  | nil => rfl
  | cons part parts ih =>
      rw [follow, follow, get?_store hfile]
      by_cases hstart : start = place
      · rw [if_pos hstart, hstart, hfile]
      · rw [if_neg hstart]
        cases fs.get? start with
        | none => rfl
        | some entry =>
            cases entry with
            | file => rfl
            | directory => exact ih _

theorem locate_store (path : Path) : (fs.store place bytes).locate path = fs.locate path :=
  follow_store hfile bytes _ _

theorem entry_store (path : Path) :
    (fs.store place bytes).entry path =
      if fs.locate path = .ok place then .ok (.file bytes) else fs.entry path := by
  rw [entry, entry, locate_store hfile]
  cases hlocate : fs.locate path with
  | error fault => simp
  | ok other =>
      simp only [get?_store hfile, Except.ok.injEq]
      by_cases hother : other = place
      · simp only [if_pos hother]
      · simp only [if_neg hother]

theorem read_store (path : Path) :
    (fs.store place bytes).read path =
      if fs.locate path = .ok place ∧ path.hasNull = false then .ok bytes else fs.read path := by
  rw [read, read, entry_store hfile]
  cases path.hasNull with
  | true => simp
  | false =>
      by_cases hplace : fs.locate path = .ok place <;> simp [hplace]

theorem openForWriting_store (path : Path) :
    (fs.store place bytes).openForWriting path = fs.openForWriting path := by
  have hentry (path : Path) : (fs.store place bytes).entry path = fs.entry path ∨
      fs.entry path = .ok (.file old) ∧ (fs.store place bytes).entry path = .ok (.file bytes) := by
    rw [entry_store hfile]
    split
    · rename_i hplace
      exact .inr ⟨by simp [entry, hplace, hfile], rfl⟩
    · exact .inl rfl
  have hmake (path : Path) :
      (fs.store place bytes).makeDirectories path = fs.makeDirectories path := by
    rw [makeDirectories, makeDirectories]
    rcases hentry path with hsame | ⟨hold, hnew⟩
    · rw [hsame]
    · rw [hold, hnew]
  have hexpand : (fs.store place bytes).expandHome path = fs.expandHome path := rfl
  rw [openForWriting, openForWriting, hexpand]
  cases fs.expandHome path with
  | error fault => rfl
  | ok path =>
      have habsolute : (fs.store place bytes).absolute path = fs.absolute path := rfl
      simp only [habsolute, hmake]
      rcases hentry (fs.absolute path) with hsame | ⟨hold, hnew⟩
      · rw [hsame]
      · rw [hold, hnew]

theorem readText_store {bytes other : List UInt8} (hsame : decodeFile bytes = decodeFile other)
    (path : Path) :
    Walker.readText (fs.store place bytes) path = Walker.readText (fs.store place other) path := by
  rw [Walker.readText, Walker.readText, read_store hfile, read_store hfile]
  by_cases hpath : fs.locate path = .ok place ∧ path.hasNull = false
  · simp only [if_pos hpath, hsame]
  · simp only [if_neg hpath]

end Store

end Files.FileSystem

/-! ## Readers -/

section Readers

variable {fs : FileSystem} {place : List String} {old bytes other : List UInt8}

theorem Walker.process_of_readText {fs : FileSystem} {file text : String}
    (h : readText fs (Path.ofString file) = .ok text) (walker : Walker) (others : FileSystem) :
    walker.process fs file none = walker.process others file (some text) := by
  rw [process_eq, process_eq, textOf, textOf, h]

theorem Cli.runParse_store (hfile : fs.get? place = some (.file old))
    (hsame : decodeFile bytes = decodeFile other) (request : TreeRequest) :
    runParse (fs.store place bytes) request = runParse (fs.store place other) request := by
  have hdeliver (code : Nat) (log : List Record) (text : String) :
      Outcome.deliver (fs.store place bytes) request.output code log text =
        Outcome.deliver (fs.store place other) request.output code log text := by
    simp only [Outcome.deliver, FileSystem.openForWriting_store hfile]
  simp only [runParse, FileSystem.readText_store hfile hsame, hdeliver]

theorem Check.Header.loadNotice_store (hfile : fs.get? place = some (.file old))
    (hsame : decodeFile bytes = decodeFile other) (setting : Document.Value) :
    loadNotice (fs.store place bytes) setting = loadNotice (fs.store place other) setting := by
  cases setting with
  | string name =>
      simp only [loadNotice, FileSystem.read_store hfile]
      split_ifs <;> simp [hsame]
  | _ => rfl

end Readers

/-- However a text is written to a file, the file is processed as the text is, and the command
that shows trees and the license notice cannot tell the file from the plain one. -/
theorem written_alike {text file : String} {fs : FileSystem} {place : List String}
    {old : List UInt8} (hreturn : '\r' ∉ text.toList) (hmark : text.toList.head? ≠ some markChar)
    (hplace : fs.locate (Path.ofString file) = .ok place)
    (hread : fs.read (Path.ofString file) = .ok old) (marked : Bool) (ending : LineEnd) :
    let written := fs.store place (fileBytes marked ending text.toList)
    let plain := fs.store place (Utf8.encode text.toList)
    (∀ (walker : Walker) (others : FileSystem),
      walker.process written file none = walker.process others file (some text)) ∧
    (∀ request, Cli.runParse written request = Cli.runParse plain request) ∧
    ∀ setting, Check.Header.loadNotice written setting = Check.Header.loadNotice plain setting := by
  intro written plain
  have hnull : (Path.ofString file).hasNull = false := by
    by_contra hnull
    rw [Bool.not_eq_false] at hnull
    rw [FileSystem.read, if_pos hnull] at hread
    cases hread
  have hfile : fs.get? place = some (.file old) := by
    rw [FileSystem.read, if_neg (by simp [hnull]), FileSystem.entry, hplace] at hread
    simp only at hread
    cases hget : fs.get? place with
    | none => simp [hget] at hread
    | some entry =>
        cases entry with
        | directory => simp [hget] at hread
        | file bytes => simpa [hget] using hread
  have hwritten := decodeFile_fileBytes marked ending hreturn hmark
  have hplain : decodeFile (Utf8.encode text.toList) = .ok text := by
    have hbytes := decodeFile_fileBytes false .lineFeed hreturn hmark
    rwa [fileBytes, withEnds_lineFeed] at hbytes
  have hsame := hwritten.trans hplain.symm
  refine ⟨fun walker others => Walker.process_of_readText ?_ walker others,
    Cli.runParse_store hfile hsame, Check.Header.loadNotice_store hfile hsame⟩
  rw [Walker.readText, FileSystem.read_store hfile, if_pos ⟨hplace, hnull⟩]
  simp only [hwritten]

/-- A mark, and line breaks of two characters. -/
theorem written_alike_sample :
    ('\r' ∉ "grammar t;\na: B;\n".toList ∧
      "grammar t;\na: B;\n".toList.head? ≠ some markChar) ∧
    let fs : FileSystem := { current := ["work"], entries := [(["work", "t.g"], .file [])] }
    let written := fs.store ["work", "t.g"]
      (fileBytes true .both "grammar t;\na: B;\n".toList)
    ∀ walker : Walker, walker.process written "t.g" none =
      walker.process fs "t.g" (some "grammar t;\na: B;\n") := by
  have hread : FileSystem.read { current := ["work"], entries := [(["work", "t.g"], .file [])] }
      (Path.ofString "t.g") = .ok [] := by decide +kernel
  refine ⟨by decide, fun walker => ?_⟩
  exact (written_alike (by decide) (by decide) (by decide +kernel) hread true .both).1 walker _

end GrammarLint
