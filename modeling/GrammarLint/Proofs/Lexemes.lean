import GrammarLint.Proofs.FirstCharacters

/-!
# Lexemes

What is matched at the front of a text that starts with a name, a keyword, a
quoted text, a mark or a gap, given what follows it.
-/

namespace GrammarLint.Grammar

open Text

/-! ## Names -/

def isName : List Char → Bool
  | [] => false
  | c :: chars => isIdentStart c && chars.all isIdentPart

theorem isIdentPart_of_isIdentStart {c : Char} (h : isIdentStart c = true) :
    isIdentPart c = true := by
  simp only [isIdentStart, isIdentPart, Char.isAlphanum, Bool.or_eq_true] at h ⊢
  tauto

theorem all_isIdentPart {name : List Char} (h : isName name = true) :
    ∀ c ∈ name, isIdentPart c = true := by
  cases name with
  | nil => simp
  | cons c chars =>
      simp only [isName, Bool.and_eq_true, List.all_eq_true] at h
      intro d hd
      rcases List.mem_cons.1 hd with rfl | hd
      · exact isIdentPart_of_isIdentStart h.1
      · exact h.2 d hd

theorem toNat_of_isIdentPart {c : Char} (h : isIdentPart c = true) :
    0x30 ≤ c.toNat ∧ c.toNat < 0x80 := by
  have hrange {low high : Char} (hlow : low.val ≤ c.val) (hhigh : c.val ≤ high.val)
      (hfirst : 0x30 ≤ low.toNat) (hlast : high.toNat < 0x80) :
      0x30 ≤ c.toNat ∧ c.toNat < 0x80 :=
    ⟨Nat.le_trans hfirst (UInt32.le_iff_toNat_le.1 hlow),
      Nat.lt_of_le_of_lt (UInt32.le_iff_toNat_le.1 hhigh) hlast⟩
  change (((c.isUpper || c.isLower) || c.isDigit) || c == '_') = true at h
  simp only [Bool.or_eq_true, beq_iff_eq] at h
  rcases h with ((h | h) | h) | rfl
  · have hupper : 'A'.val ≤ c.val ∧ c.val ≤ 'Z'.val := of_decide_eq_true h
    exact hrange hupper.1 hupper.2 (by decide) (by decide)
  · have hlower := Bool.and_eq_true_iff.1 h
    exact hrange (of_decide_eq_true hlower.1) (of_decide_eq_true hlower.2) (by decide) (by decide)
  · have hdigit := Bool.and_eq_true_iff.1 h
    exact hrange (of_decide_eq_true hdigit.1) (of_decide_eq_true hdigit.2) (by decide) (by decide)
  · decide

def Stops (p : Char → Bool) (rest : List Char) : Prop :=
  ∀ c ∈ rest.head?, p c = false

@[simp] theorem stops_cons {p : Char → Bool} {c : Char} {rest : List Char} :
    Stops p (c :: rest) ↔ p c = false := by
  simp [Stops]

theorem takeWhile_append {p : Char → Bool} {chars rest : List Char}
    (hchars : ∀ c ∈ chars, p c = true) (hstops : Stops p rest) :
    (chars ++ rest).takeWhile p = chars ∧ (chars ++ rest).dropWhile p = rest := by
  have hrest : rest.takeWhile p = [] ∧ rest.dropWhile p = rest := by
    cases rest with
    | nil => exact ⟨rfl, rfl⟩
    | cons c rest => simp [hstops c rfl]
  rw [List.takeWhile_append_of_pos hchars, List.dropWhile_append_of_pos hchars, hrest.1, hrest.2]
  simp

theorem scanIdentifier?_name {name rest : List Char} (hname : isName name = true)
    (hstops : Stops isIdentPart rest) :
    scanIdentifier? (name ++ rest) = some (name, rest) := by
  cases name with
  | nil => simp [isName] at hname
  | cons c chars =>
      simp only [isName, Bool.and_eq_true, List.all_eq_true] at hname
      have hwhile := takeWhile_append hname.2 hstops
      simp [scanIdentifier?, hname.1, hwhile.1, hwhile.2]

theorem scanQualified_name {name rest : List Char} (hname : isName name = true)
    (hstops : Stops isIdentPart rest) (hdot : Stops (· == '.') rest) :
    Pattern.qualified.scan? (name ++ rest) = some (name, rest) := by
  have hmore : scanQualifiers false rest = ([], rest) := by
    cases rest with
    | nil => rfl
    | cons c rest =>
        have hc : c ≠ '.' := by simpa using hdot c rfl
        rw [scanQualifiers.eq_def]
        simp [hc]
  simp [Pattern.scan?, scanIdentifier?_name hname hstops, hmore]

/-! ## Keywords -/

theorem isWord_of_isIdentPart {c : Char} (h : isIdentPart c = true) : isWord c = true := by
  rw [isWord_of_ascii (toNat_of_isIdentPart h).2]
  exact h

theorem Stops.isIdentPart {rest : List Char} (h : Stops isWord rest) :
    Stops isIdentPart rest := by
  intro c hc
  by_contra hpart
  have hword := isWord_of_isIdentPart (Bool.not_eq_false _ ▸ hpart)
  rw [h c hc] at hword
  cases hword

theorem Keyword.isName_text (word : Keyword) : isName word.text.toList = true := by
  cases word <;> decide

theorem name_eq_of_front {name word rest : List Char} (hname : isName name = true)
    (hword : isName word = true) (hstops : Stops isWord rest) (hfront : word <+: name ++ rest)
    (hends : endsWord ((name ++ rest).drop word.length) = true) : name = word := by
  rcases List.prefix_or_prefix_of_prefix hfront (List.prefix_append name rest) with
    ⟨tail, htail⟩ | ⟨tail, htail⟩
  · cases tail with
    | nil => simpa using htail.symm
    | cons c tail =>
        rw [← htail, List.append_assoc, List.drop_left] at hends
        have hpart := all_isIdentPart hname c (by simp [← htail])
        simp [endsWord, isWord_of_isIdentPart hpart] at hends
  · cases tail with
    | nil => simpa using htail
    | cons c tail =>
        rw [← htail, List.prefix_append_right_inj] at hfront
        obtain ⟨more, hmore⟩ := hfront
        have hpart := all_isIdentPart hword c (by simp [← htail])
        have hstop := hstops c (by simp [← hmore])
        rw [isWord_of_isIdentPart hpart] at hstop
        cases hstop

theorem scanWord_name {name rest : List Char} (word : Keyword) (hname : isName name = true)
    (hstops : Stops isWord rest) :
    (Pattern.word word.text).scan? (name ++ rest) =
      if name = word.text.toList then some (name, rest) else none := by
  have hends : endsWord rest = true := by
    cases rest with
    | nil => rfl
    | cons c rest => simp [endsWord, hstops c rfl]
  simp only [Pattern.scan?]
  split
  case isTrue h =>
      simp only [Bool.and_eq_true, List.isPrefixOf_iff_prefix] at h
      obtain ⟨hfront, hend⟩ := h
      have hsame := name_eq_of_front hname word.isName_text hstops hfront hend
      rw [if_pos hsame, ← hsame, List.drop_left]
  case isFalse h =>
      rw [if_neg]
      rintro rfl
      simp [hends] at h

/-! ## Quoted texts -/

def isPlain (chars : List Char) : Bool :=
  chars.all fun c => c != '\'' && c != '\\' && c != '\n'

theorem scanQuotedBody?_plain {body : List Char} (rest : List Char) (h : isPlain body = true) :
    scanQuotedBody? '\'' (body ++ '\'' :: rest) = some (body ++ ['\''], rest) := by
  induction body with
  | nil => simp [scanQuotedBody?]
  | cons c body ih =>
      simp only [isPlain, List.all_cons, Bool.and_eq_true, bne_iff_ne, ne_eq] at h
      obtain ⟨⟨⟨hquote, hslash⟩, hbreak⟩, hbody⟩ := h
      rw [List.cons_append, scanQuotedBody?.eq_def]
      split
      · simp_all
      · simp_all
      · simp_all [isPlain]

/-! ## Gaps -/

def Solid (rest : List Char) : Prop :=
  Stops (fun c => isSpace c || c == '/') rest

theorem solid_of_isIdentPart {c : Char} (rest : List Char) (h : isIdentPart c = true) :
    Solid (c :: rest) := by
  obtain ⟨hlow, hhigh⟩ := toNat_of_isIdentPart h
  refine stops_cons.2 (Bool.or_eq_false_iff.2 ⟨?_, ?_⟩)
  · simp only [isSpace, Bool.or_eq_false_iff, Bool.and_eq_false_iff, decide_eq_false_iff_not,
      beq_eq_false_iff_ne]
    omega
  · simp only [beq_eq_false_iff_ne]
    rintro rfl
    exact absurd hlow (by decide)

theorem scanTrivia_gap {gap rest : List Char} (hgap : gap.all isSpace = true)
    (hsolid : Solid rest) : scanTrivia 0 (gap ++ rest) = (gap, rest) := by
  induction gap with
  | nil =>
      cases rest with
      | nil => rfl
      | cons c rest =>
          have hc := hsolid c rfl
          simp only [Bool.or_eq_false_iff, beq_eq_false_iff_ne] at hc
          exact scanTrivia_eq_nil_of_solid rest hc.1 hc.2
  | cons c gap ih =>
      simp only [List.all_cons, Bool.and_eq_true] at hgap
      have hpiece : triviaPiece (c :: (gap ++ rest)) = 1 := by simp [triviaPiece, hgap.1]
      rw [List.cons_append, scanTrivia_eq_piece hpiece]
      simp [ih hgap.2]

/-! ## Tokens -/

def Lexes (type : Terminal) (text rest : List Char) : Prop :=
  ∀ offset, Yields type.body ⟨offset, text ++ rest⟩
    (some ([.text text], ⟨offset + text.length, rest⟩))

theorem Lexes.yields {type : Terminal} {text rest : List Char} (h : Lexes type text rest)
    (offset : Nat) : Yields (.rule (.terminal type)) ⟨offset, text ++ rest⟩
      (some ([.node (.terminal type) offset [.text text]], ⟨offset + text.length, rest⟩)) := by
  refine .rule ?_
  rw [Rule.body_terminal]
  exact h offset

theorem lexes_of_scan? {type : Terminal} {pattern : Pattern} {text rest : List Char}
    (hbody : type.body = .pattern pattern)
    (hscan : pattern.scan? (text ++ rest) = some (text, rest)) : Lexes type text rest := by
  intro offset
  rw [hbody]
  exact .pattern hscan

theorem lexes_identifier {name rest : List Char} (hname : isName name = true)
    (hstops : Stops isIdentPart rest) : Lexes .identifier name rest :=
  lexes_of_scan? rfl (scanIdentifier?_name hname hstops)

theorem lexes_qualifiedId {name rest : List Char} (hname : isName name = true)
    (hstops : Stops isIdentPart rest) (hdot : Stops (· == '.') rest) :
    Lexes .qualifiedId name rest :=
  lexes_of_scan? rfl (scanQualified_name hname hstops hdot)

theorem lexes_keyword (word : Keyword) {rest : List Char} (hstops : Stops isWord rest) :
    Lexes (.keyword word) word.text.toList rest := by
  refine lexes_of_scan? rfl ?_
  rw [scanWord_name word word.isName_text hstops, if_pos rfl]

theorem lexes_stringLiteral {body : List Char} (rest : List Char) (h : isPlain body = true) :
    Lexes .stringLiteral ('\'' :: (body ++ ['\''])) rest := by
  refine lexes_of_scan? rfl ?_
  simp [Pattern.scan?, scanQuotedBody?_plain rest h]

theorem lexes_mark (sign : Mark) (rest : List Char) : Lexes (.mark sign) sign.text.toList rest := by
  intro offset
  refine .literal ?_
  simp [Cursor.expect?, Cursor.past]

theorem yields_gap {text rest : List Char} (htext : text.all isSpace = true) (hsolid : Solid rest)
    (offset : Nat) : Yields gap ⟨offset, text ++ rest⟩
      (some ([.node .trivia offset [.text text]], ⟨offset + text.length, rest⟩)) :=
  .rule (.pattern (by simp [Pattern.scan?, scanTrivia_gap htext hsolid]))

theorem refuses_keyword {word : Keyword} {name rest : List Char} (hname : isName name = true)
    (hne : name ≠ word.text.toList) (hstops : Stops isWord rest) :
    Refuses word.expr (name ++ rest) := by
  intro offset
  refine .noRule (.noPattern ?_)
  simp [scanWord_name word hname hstops, hne]

theorem refuses_clash {word : Keyword} {more : Expr} {name blank rest : List Char}
    (hname : isName name = true) (hblank : blank.all isSpace = true) (hsolid : Solid rest)
    (hstops : Stops isWord (blank ++ rest)) (hmore : Refuses more rest) :
    Refuses (.seq word.expr (.seq gap more)) (name ++ (blank ++ rest)) := by
  by_cases hsame : name = word.text.toList
  · intro offset
    rw [hsame]
    exact .noSecond ((lexes_keyword word hstops).yields offset)
      (.noSecond (yields_gap hblank hsolid _) (hmore _))
  · exact (refuses_keyword hname hsame hstops).seq

theorem refuses_at_name (depth : Nat) {expr : Expr} {name : List Char} (rest : List Char)
    (hname : isName name = true) (hnullable : expr.nullable = false)
    (hstarts : ∀ code < 0x80, isIdentStart (Char.ofNat code) = true →
      expr.starts (Rule.starts depth) (Char.ofNat code) = false) :
    Refuses expr (name ++ rest) := by
  cases name with
  | nil => simp [isName] at hname
  | cons c chars =>
      simp only [isName, Bool.and_eq_true] at hname
      have hstart := hname.1
      have hascii := (toNat_of_isIdentPart (isIdentPart_of_isIdentStart hstart)).2
      rw [← Char.ofNat_toNat c] at hstart
      have hno := hstarts c.toNat hascii hstart
      rw [Char.ofNat_toNat] at hno
      exact refuses_of_starts depth _ hnullable hno

end GrammarLint.Grammar
