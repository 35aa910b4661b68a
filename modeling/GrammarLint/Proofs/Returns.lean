import GrammarLint.Proofs.Terminals
import GrammarLint.Text.Lines

/-!
# Line breaks with a carriage return

`withReturns` writes every line break of a text as carriage return and line feed.
Tokens and trivia end at the same places in both texts: every law below says that
reading first and then writing line breaks anew is the same as doing it the other
way around.
-/

namespace GrammarLint.Grammar

open Text

def withReturns : List Char → List Char
  | [] => []
  | c :: chars => if c = '\n' then '\r' :: '\n' :: withReturns chars else c :: withReturns chars

def withoutReturns : List Char → List Char
  | [] => []
  | '\r' :: '\n' :: chars => '\n' :: withoutReturns chars
  | c :: chars => c :: withoutReturns chars

@[simp] theorem withReturns_nil : withReturns [] = [] := rfl

@[simp] theorem withReturns_break (chars : List Char) :
    withReturns ('\n' :: chars) = '\r' :: '\n' :: withReturns chars := by
  simp [withReturns]

theorem withReturns_cons {c : Char} (h : c ≠ '\n') (chars : List Char) :
    withReturns (c :: chars) = c :: withReturns chars := by
  simp [withReturns, h]

@[simp] theorem withReturns_append (chars more : List Char) :
    withReturns (chars ++ more) = withReturns chars ++ withReturns more := by
  induction chars with
  | nil => rfl
  | cons c chars ih =>
      by_cases hbreak : c = '\n'
      · simp [hbreak, ih]
      · simp [withReturns_cons hbreak, ih]

theorem withReturns_eq_self {chars : List Char} (h : '\n' ∉ chars) : withReturns chars = chars := by
  induction chars with
  | nil => rfl
  | cons c chars ih =>
      rw [List.mem_cons, not_or] at h
      rw [withReturns_cons (Ne.symm h.1), ih h.2]

theorem withReturns_eq_nil {chars : List Char} : withReturns chars = [] ↔ chars = [] := by
  cases chars with
  | nil => simp
  | cons c chars => by_cases hbreak : c = '\n' <;> simp [withReturns, hbreak]

theorem withoutReturns_cons {c : Char} {chars : List Char}
    (h : c ≠ '\r' ∨ ∀ d ∈ chars.head?, d ≠ '\n') :
    withoutReturns (c :: chars) = c :: withoutReturns chars := by
  rw [withoutReturns.eq_def]
  split
  · simp_all
  · simp_all
  · simp_all

theorem withoutReturns_withReturns (chars : List Char) :
    withoutReturns (withReturns chars) = chars := by
  induction chars with
  | nil => rfl
  | cons c chars ih =>
      by_cases hbreak : c = '\n'
      · rw [hbreak, withReturns_break, withoutReturns, ih]
      · rw [withReturns_cons hbreak, withoutReturns_cons, ih]
        refine .inr fun d hd => ?_
        cases chars with
        | nil => cases hd
        | cons e chars =>
            by_cases hnext : e = '\n'
            · simp only [hnext, withReturns_break, List.head?_cons, Option.mem_some_iff] at hd
              exact hd ▸ by decide
            · simp only [withReturns_cons hnext, List.head?_cons, Option.mem_some_iff] at hd
              exact hd ▸ hnext

theorem withReturns_injective {chars others : List Char} :
    withReturns chars = withReturns others ↔ chars = others := by
  constructor
  · intro h
    rw [← withoutReturns_withReturns chars, h, withoutReturns_withReturns]
  · exact congrArg withReturns

/-! ## Runs of characters -/

section Runs

variable {p : Char → Bool} (hfeed : p '\n' = false) (hreturn : p '\r' = false)

include hfeed hreturn

theorem takeWhile_withReturns (chars : List Char) :
    (withReturns chars).takeWhile p = chars.takeWhile p := by
  induction chars with
  | nil => rfl
  | cons c chars ih =>
      by_cases hbreak : c = '\n'
      · simp [hbreak, hfeed, hreturn]
      · rw [withReturns_cons hbreak, List.takeWhile_cons, List.takeWhile_cons, ih]

theorem dropWhile_withReturns (chars : List Char) :
    (withReturns chars).dropWhile p = withReturns (chars.dropWhile p) := by
  induction chars with
  | nil => rfl
  | cons c chars ih =>
      by_cases hbreak : c = '\n'
      · simp [hbreak, hfeed, hreturn]
      · rw [withReturns_cons hbreak, List.dropWhile_cons, List.dropWhile_cons, ih]
        split
        · rfl
        · rw [withReturns_cons hbreak]

end Runs

theorem isPrefixOf_withReturns {word : List Char} (hfeed : '\n' ∉ word) (hreturn : '\r' ∉ word)
    (chars : List Char) :
    word.isPrefixOf (withReturns chars) = word.isPrefixOf chars ∧
      (word.isPrefixOf chars = true →
        (withReturns chars).drop word.length = withReturns (chars.drop word.length)) := by
  induction word generalizing chars with
  | nil => simp
  | cons d word ih =>
      rw [List.mem_cons, not_or] at hfeed hreturn
      cases chars with
      | nil => simp
      | cons c chars =>
          by_cases hbreak : c = '\n'
          · subst hbreak
            have hno : (d == '\n') = false := beq_false_of_ne (Ne.symm hfeed.1)
            have hno' : (d == '\r') = false := beq_false_of_ne (Ne.symm hreturn.1)
            simp [List.isPrefixOf, hno, hno']
          · obtain ⟨hfront, hdrop⟩ := ih hfeed.2 hreturn.2 chars
            rw [withReturns_cons hbreak]
            simp only [List.isPrefixOf, hfront, List.length_cons, List.drop_succ_cons,
              Bool.and_eq_true]
            exact ⟨trivial, fun h => hdrop h.2⟩

theorem endsWord_withReturns (chars : List Char) :
    endsWord (withReturns chars) = endsWord chars := by
  cases chars with
  | nil => rfl
  | cons c chars =>
      by_cases hbreak : c = '\n'
      · subst hbreak
        rw [withReturns_break]
        simp only [endsWord]
        decide
      · rw [withReturns_cons hbreak]
        rfl

/-! ## Names and quoted texts -/

theorem scanIdentifier?_withReturns (chars : List Char) :
    scanIdentifier? (withReturns chars) =
      (scanIdentifier? chars).map fun found => (found.1, withReturns found.2) := by
  cases chars with
  | nil => rfl
  | cons c chars =>
      by_cases hbreak : c = '\n'
      · subst hbreak
        have hreturn : isIdentStart '\r' = false := by decide
        have hfeed : isIdentStart '\n' = false := by decide
        simp [scanIdentifier?, hfeed, hreturn]
      · rw [withReturns_cons hbreak, scanIdentifier?, scanIdentifier?]
        split
        · rw [takeWhile_withReturns (by decide) (by decide),
            dropWhile_withReturns (by decide) (by decide)]
          rfl
        · rfl

theorem scanQualifiers_part {c : Char} (hpart : isIdentPart c = true) (chars : List Char) :
    scanQualifiers true (c :: chars) =
      (c :: (scanQualifiers true chars).1, (scanQualifiers true chars).2) := by
  rw [scanQualifiers.eq_def]
  simp [hpart]

theorem scanQualifiers_dot (inName : Bool) {d : Char} (hstart : isIdentStart d = true)
    (chars : List Char) :
    scanQualifiers inName ('.' :: d :: chars) =
      ('.' :: d :: (scanQualifiers true chars).1, (scanQualifiers true chars).2) := by
  rw [scanQualifiers.eq_def]
  simp [show isIdentPart '.' = false by decide, hstart]

theorem scanQualifiers_stop {inName : Bool} {c : Char} (hpart : ¬(inName && isIdentPart c) = true)
    {chars : List Char} (hdot : c = '.' → ∀ d ∈ chars.head?, isIdentStart d = false) :
    scanQualifiers inName (c :: chars) = ([], c :: chars) := by
  rw [scanQualifiers.eq_def]
  simp only [hpart, Bool.false_eq_true, if_false]
  split
  · rename_i d chars
    simp [hdot rfl d rfl]
  · rfl

theorem head?_withReturns {p : Char → Bool} (hreturn : p '\r' = false) {chars : List Char}
    (h : ∀ c ∈ chars.head?, p c = false) : ∀ c ∈ (withReturns chars).head?, p c = false := by
  cases chars with
  | nil => simp
  | cons d chars =>
      by_cases hbreak : d = '\n'
      · simp [hbreak, hreturn]
      · rw [withReturns_cons hbreak]
        simpa using h

theorem scanQualifiers_withReturns (inName : Bool) (chars : List Char) :
    scanQualifiers inName (withReturns chars) =
      ((scanQualifiers inName chars).1, withReturns (scanQualifiers inName chars).2) := by
  fun_induction scanQualifiers inName chars with
  | case1 => rfl
  | case2 inName c chars hpart more rest hmore ih =>
      obtain ⟨rfl, hpart⟩ := Bool.and_eq_true_iff.1 hpart
      have hbreak : c ≠ '\n' := by
        rintro rfl
        exact absurd hpart (by decide)
      rw [withReturns_cons hbreak, scanQualifiers_part hpart, ih, hmore]
  | case3 inName d chars hstart more rest hmore _ ih =>
      have hbreak : d ≠ '\n' := by
        rintro rfl
        exact absurd hstart (by decide)
      rw [withReturns_cons (by decide), withReturns_cons hbreak, scanQualifiers_dot _ hstart, ih,
        hmore]
  | case4 inName d chars hstart hpart =>
      rw [withReturns_cons (by decide)]
      refine scanQualifiers_stop hpart fun _ => head?_withReturns (by decide) ?_
      simpa using hstart
  | case5 inName c chars hdot hpart =>
      by_cases hbreak : c = '\n'
      · subst hbreak
        rw [withReturns_break]
        refine scanQualifiers_stop (by simp [show isIdentPart '\r' = false by decide]) ?_
        exact fun h => absurd h (by decide)
      · rw [withReturns_cons hbreak]
        refine scanQualifiers_stop hpart fun hc => head?_withReturns (by decide) fun d hd => ?_
        cases chars with
        | nil => cases hd
        | cons e chars => exact (hdot e chars hc rfl).elim

section Quoted

variable {quote : Char}

theorem scanQuotedBody?_ordinary {c : Char} (hquote : c ≠ quote) (hc : c ≠ '\\') (hfeed : c ≠ '\n')
    (chars : List Char) :
    scanQuotedBody? quote (c :: chars) =
      (scanQuotedBody? quote chars).map fun found => (c :: found.1, found.2) := by
  rw [scanQuotedBody?.eq_def]
  split
  · simp_all
  · simp_all
  · simp_all

theorem scanQuotedBody?_break (hfeed : quote ≠ '\n') (chars : List Char) :
    scanQuotedBody? quote ('\n' :: chars) = none := by
  rw [scanQuotedBody?.eq_def]
  simp [Ne.symm hfeed]

theorem scanQuotedBody?_quote (hslash : quote ≠ '\\') (chars : List Char) :
    scanQuotedBody? quote (quote :: chars) = some ([quote], chars) := by
  rw [scanQuotedBody?.eq_def]
  split
  · simp_all
  · simp_all
  · simp_all

theorem scanQuotedBody?_withReturns (hslash : quote ≠ '\\') (hfeed : quote ≠ '\n')
    (hreturn : quote ≠ '\r') (chars : List Char) :
    scanQuotedBody? quote (withReturns chars) =
      (scanQuotedBody? quote chars).map fun found => (found.1, withReturns found.2) := by
  fun_induction scanQuotedBody? quote chars with
  | case1 => rfl
  | case2 chars =>
      rw [withReturns_cons (by decide), withReturns_break, scanQuotedBody?,
        if_neg (by decide), scanQuotedBody?_break hfeed]
      rfl
  | case3 c chars hc ih =>
      rw [withReturns_cons (by decide), withReturns_cons hc, scanQuotedBody?, if_neg hc, ih,
        Option.map_map, Option.map_map]
      rfl
  | case4 chars =>
      rw [withReturns_cons hfeed, scanQuotedBody?_quote hslash]
      rfl
  | case5 c chars hescape hquote hends =>
      rcases hends with rfl | rfl
      · rw [withReturns_break, scanQuotedBody?_ordinary (Ne.symm hreturn) (by decide) (by decide),
          scanQuotedBody?_break hfeed]
        rfl
      · cases chars with
        | nil =>
            rw [withReturns_cons (by decide), withReturns_nil, scanQuotedBody?.eq_def]
            simp [hquote]
        | cons d chars => exact (hescape d chars rfl rfl).elim
  | case6 c chars _ hquote hends ih =>
      rw [not_or] at hends
      rw [withReturns_cons hends.1, scanQuotedBody?_ordinary hquote hends.2 hends.1, ih,
        Option.map_map, Option.map_map]
      rfl

end Quoted

theorem scanQuoted_withReturns {quote : Char} (h : quote = '"' ∨ quote = '\'') (chars : List Char) :
    (Pattern.quoted quote).scan? (withReturns chars) =
      ((Pattern.quoted quote).scan? chars).map fun found => (found.1, withReturns found.2) := by
  have hslash : quote ≠ '\\' := by rcases h with rfl | rfl <;> decide
  have hfeed : quote ≠ '\n' := by rcases h with rfl | rfl <;> decide
  have hreturn : quote ≠ '\r' := by rcases h with rfl | rfl <;> decide
  cases chars with
  | nil => rfl
  | cons c chars =>
      by_cases hbreak : c = '\n'
      · simp [hbreak, Pattern.scan?, Ne.symm hfeed, Ne.symm hreturn]
      · rw [withReturns_cons hbreak]
        simp only [Pattern.scan?]
        split
        · rw [scanQuotedBody?_withReturns hslash hfeed hreturn, Option.map_map, Option.map_map]
          rfl
        · rfl

/-! ## Comments -/

theorem scanCommentBody?_ordinary {c : Char} (h : c ≠ '*') (chars : List Char) :
    scanCommentBody? (c :: chars) =
      (scanCommentBody? chars).map fun found => (c :: found.1, found.2) := by
  rw [scanCommentBody?.eq_def]
  split
  · simp_all
  · simp_all
  · simp_all

theorem scanCommentBody?_withReturns (chars : List Char) :
    scanCommentBody? (withReturns chars) =
      (scanCommentBody? chars).map fun found => (withReturns found.1, withReturns found.2) := by
  fun_induction scanCommentBody? chars with
  | case1 => rfl
  | case2 chars =>
      rw [withReturns_cons (by decide), withReturns_cons (by decide), scanCommentBody?]
      rfl
  | case3 c chars hclose ih =>
      by_cases hbreak : c = '\n'
      · subst hbreak
        rw [withReturns_break, scanCommentBody?_ordinary (by decide),
          scanCommentBody?_ordinary (by decide), ih, Option.map_map, Option.map_map,
          Option.map_map]
        congr 1
      · rw [withReturns_cons hbreak, scanCommentBody?, ih, Option.map_map, Option.map_map]
        · congr 1
          funext found
          simp [withReturns_cons hbreak]
        · intro rest hstar hrest
          cases chars with
          | nil => cases hrest
          | cons d chars =>
              by_cases hnext : d = '\n'
              · simp [hnext] at hrest
              · rw [withReturns_cons hnext, List.cons.injEq] at hrest
                exact hclose chars hstar (by rw [hrest.1])

theorem scanLineComment?_eq (chars : List Char) :
    scanLineComment? chars =
      if ['/', '/'].isPrefixOf chars then
        some ('/' :: '/' :: (chars.drop 2).takeWhile (· != '\n'),
          (chars.drop 2).dropWhile (· != '\n'))
      else none := by
  unfold scanLineComment?
  split
  · rfl
  · rename_i hopen
    rw [if_neg]
    rw [List.isPrefixOf_iff_prefix]
    rintro ⟨rest, rfl⟩
    exact hopen rest rfl

theorem scanBlockComment?_eq (chars : List Char) :
    scanBlockComment? chars =
      if ['/', '*'].isPrefixOf chars then
        (scanCommentBody? (chars.drop 2)).map fun found => ('/' :: '*' :: found.1, found.2)
      else none := by
  unfold scanBlockComment?
  split
  · rfl
  · rename_i hopen
    rw [if_neg]
    rw [List.isPrefixOf_iff_prefix]
    rintro ⟨rest, rfl⟩
    exact hopen rest rfl

theorem scanBlockComment?_withReturns (chars : List Char) :
    scanBlockComment? (withReturns chars) =
      (scanBlockComment? chars).map fun found => (withReturns found.1, withReturns found.2) := by
  obtain ⟨hfront, hdrop⟩ := @isPrefixOf_withReturns ['/', '*'] (by decide) (by decide) chars
  rw [scanBlockComment?_eq, scanBlockComment?_eq, hfront]
  split
  · have hdrop := hdrop ‹_›
    simp only [List.length_cons, List.length_nil, Nat.reduceAdd] at hdrop
    rw [hdrop, scanCommentBody?_withReturns, Option.map_map, Option.map_map]
    rfl
  · rfl

/-- The rests of two texts whose line breaks differ in a carriage return only; the
carriage return of the first break may be gone. -/
def Abreast (rest other : List Char) : Prop :=
  other = withReturns rest ∨ ∃ more, rest = '\n' :: more ∧ other = '\n' :: withReturns more

theorem abreast_dropWhile (chars : List Char) :
    Abreast (chars.dropWhile (· != '\n')) ((withReturns chars).dropWhile (· != '\n')) := by
  induction chars with
  | nil => exact .inl rfl
  | cons c chars ih =>
      by_cases hbreak : c = '\n'
      · exact .inr ⟨chars, by simp [hbreak], by simp [hbreak]⟩
      · simpa [withReturns_cons hbreak, hbreak] using ih

theorem scanLineComment?_withReturns {chars taken rest : List Char}
    (h : scanLineComment? chars = some (taken, rest)) :
    ∃ more other, scanLineComment? (withReturns chars) = some (more, other) ∧
      Abreast rest other := by
  obtain ⟨hfront, hdrop⟩ := @isPrefixOf_withReturns ['/', '/'] (by decide) (by decide) chars
  rw [scanLineComment?_eq, Option.ite_none_right_eq_some] at h
  obtain ⟨hopen, hfound⟩ := h
  cases hfound
  rw [scanLineComment?_eq, hfront, if_pos hopen]
  refine ⟨_, _, rfl, ?_⟩
  have hdrop := hdrop hopen
  simp only [List.length_cons, List.length_nil, Nat.reduceAdd] at hdrop
  rw [hdrop]
  exact abreast_dropWhile _

theorem scanLineComment?_withReturns_eq_none {chars : List Char}
    (h : scanLineComment? chars = none) : scanLineComment? (withReturns chars) = none := by
  obtain ⟨hfront, -⟩ := @isPrefixOf_withReturns ['/', '/'] (by decide) (by decide) chars
  rw [scanLineComment?_eq] at h ⊢
  rw [hfront]
  split at h
  · cases h
  · rw [if_neg ‹_›]

theorem comment?_withReturns {enclosure : Enclosure} {chars taken rest : List Char}
    (h : enclosure.comment? chars = some (taken, rest)) :
    ∃ more other, enclosure.comment? (withReturns chars) = some (more, other) ∧
      Abreast rest other := by
  cases enclosure with
  | brackets => cases h
  | braces =>
      rcases Option.or_eq_some_iff.1 h with hline | ⟨hline, hblock⟩
      · obtain ⟨more, other, hscan, habreast⟩ := scanLineComment?_withReturns hline
        exact ⟨more, other, by simp [Enclosure.comment?, hscan], habreast⟩
      · refine ⟨withReturns taken, withReturns rest, ?_, .inl rfl⟩
        simp [Enclosure.comment?, scanLineComment?_withReturns_eq_none hline,
          scanBlockComment?_withReturns, hblock]

theorem comment?_withReturns_eq_none {enclosure : Enclosure} {chars : List Char}
    (h : enclosure.comment? chars = none) : enclosure.comment? (withReturns chars) = none := by
  cases enclosure with
  | brackets => rfl
  | braces =>
      obtain ⟨hline, hblock⟩ := Option.or_eq_none_iff.1 h
      simp [Enclosure.comment?, scanLineComment?_withReturns_eq_none hline,
        scanBlockComment?_withReturns, hblock]

/-! ## Blocks and trivia -/

theorem abreast_hop (enclosure : Enclosure) {c : Char} (hbreak : c ≠ '\n') (chars : List Char) :
    Abreast (enclosure.hop (c :: chars)) (enclosure.hop (withReturns (c :: chars))) := by
  have hdouble := @scanQuoted_withReturns '"' (.inl rfl) (c :: chars)
  have hsingle := @scanQuoted_withReturns '\'' (.inr rfl) (c :: chars)
  unfold Enclosure.hop
  rw [hdouble, hsingle]
  cases (Pattern.quoted '"').scan? (c :: chars) with
  | some found => exact .inl rfl
  | none =>
      cases (Pattern.quoted '\'').scan? (c :: chars) with
      | some found => exact .inl rfl
      | none =>
          cases hcomment : enclosure.comment? (c :: chars) with
          | some found =>
              obtain ⟨more, other, hother, habreast⟩ := comment?_withReturns hcomment
              simpa only [Option.map_none, hother] using habreast
          | none =>
              simp only [Option.map_none, comment?_withReturns_eq_none hcomment]
              exact .inl (by rw [withReturns_cons hbreak]; rfl)

theorem skim_withReturns (enclosure : Enclosure) (depth : Nat) (chars : List Char) :
    enclosure.skim depth (withReturns chars) = (enclosure.skim depth chars).map withReturns := by
  have hfeed : '\n' ∉ enclosure.special := by cases enclosure <;> decide
  have hreturn : '\r' ∉ enclosure.special := by cases enclosure <;> decide
  have hopening : enclosure.opening ≠ '\n' := by cases enclosure <;> decide
  have hclosing : enclosure.closing ≠ '\n' := by cases enclosure <;> decide
  induction depth, chars using Enclosure.skim_induction enclosure with
  | ends depth => simp
  | leaves chars =>
      rw [withReturns_cons hclosing]
      simp
  | closes depth chars ih =>
      rw [withReturns_cons hclosing]
      simpa using ih
  | opens depth chars ih =>
      rw [withReturns_cons hopening]
      simpa using ih
  | hops depth c chars hclosing hopening ih =>
      by_cases hbreak : c = '\n'
      · subst hbreak
        rw [Enclosure.hop_ordinary hfeed] at ih
        rw [withReturns_break, Enclosure.skim_ordinary hreturn, Enclosure.skim_ordinary hfeed,
          Enclosure.skim_ordinary hfeed, ih]
      · rw [withReturns_cons hbreak, Enclosure.skim_hop _ hclosing hopening,
          Enclosure.skim_hop _ hclosing hopening, ← withReturns_cons hbreak]
        rcases abreast_hop enclosure hbreak chars with hsame | ⟨more, hrest, hother⟩
        · rw [hsame]
          exact ih
        · rw [hrest, withReturns_break, Enclosure.skim_ordinary hreturn] at ih
          rw [hother, hrest]
          exact ih

theorem afterBlock_withReturns (enclosure : Enclosure) (chars : List Char) :
    enclosure.afterBlock (withReturns chars) = (enclosure.afterBlock chars).map withReturns := by
  cases chars with
  | nil => rfl
  | cons c chars =>
      by_cases hbreak : c = '\n'
      · subst hbreak
        rw [withReturns_break, Enclosure.afterBlock, Enclosure.afterBlock, if_neg, if_neg]
        · rfl
        · cases enclosure <;> decide
        · cases enclosure <;> decide
      · rw [withReturns_cons hbreak, Enclosure.afterBlock, Enclosure.afterBlock]
        split
        · exact skim_withReturns enclosure 0 chars
        · rfl

theorem afterTrivia_withReturns (chars : List Char) :
    afterTrivia (withReturns chars) = withReturns (afterTrivia chars) := by
  have hfeed : isSpace '\n' = true := by decide
  have hreturn : isSpace '\r' = true := by decide
  induction chars using trivia_induction with
  | nil => rfl
  | space c chars hspace ih =>
      by_cases hbreak : c = '\n'
      · subst hbreak
        rw [withReturns_break, afterTrivia_space hreturn, afterTrivia_space hfeed,
          afterTrivia_space hfeed, ih]
      · rw [withReturns_cons hbreak, afterTrivia_space hspace, afterTrivia_space hspace, ih]
  | comment chars taken rest hcomment ih =>
      obtain ⟨more, other, hother, habreast⟩ := comment?_withReturns hcomment
      rw [afterTrivia_comment hcomment, afterTrivia_comment hother]
      rcases habreast with rfl | ⟨last, rfl, rfl⟩
      · exact ih
      · rw [withReturns_break, afterTrivia_space hreturn] at ih
        exact ih
  | solid c chars hspace hcomment =>
      have hbreak : c ≠ '\n' := by
        rintro rfl
        cases hspace
      have hnone := comment?_withReturns_eq_none hcomment
      rw [afterTrivia_solid hspace hcomment]
      rw [withReturns_cons hbreak] at hnone ⊢
      exact afterTrivia_solid hspace hnone

/-! ## Tokens -/

theorem Terminal.after?_withReturns (type : Terminal) (chars : List Char) :
    type.after? (withReturns chars) = (type.after? chars).map withReturns := by
  cases type with
  | keyword word =>
      obtain ⟨hfront, hdrop⟩ := isPrefixOf_withReturns word.plain_text.1 word.plain_text.2 chars
      simp only [after?, Pattern.scan?, hfront]
      by_cases hopen : word.text.toList.isPrefixOf chars = true
      · rw [hdrop hopen, endsWord_withReturns]
        split <;> rfl
      · simp [hopen]
  | mark sign =>
      obtain ⟨hfront, hdrop⟩ := isPrefixOf_withReturns sign.plain_text.1 sign.plain_text.2 chars
      simp only [after?, hfront]
      split
      · rw [hdrop ‹_›]
        rfl
      · rfl
  | identifier =>
      simp only [after?, scanIdentifier?_withReturns, Option.map_map]
      rfl
  | qualifiedId =>
      simp only [after?, Pattern.scan?, scanIdentifier?_withReturns, Option.map_map]
      congr 1
      funext found
      simp [scanQualifiers_withReturns]
  | stringLiteral =>
      simp only [after?, scanQuoted_withReturns (.inr rfl), Option.map_map]
      rfl
  | doubleQuoted =>
      simp only [after?, scanQuoted_withReturns (.inl rfl), Option.map_map]
      rfl
  | integer =>
      simp only [after?, Pattern.scan?]
      rw [takeWhile_withReturns (by decide) (by decide),
        dropWhile_withReturns (by decide) (by decide)]
      split <;> rfl
  | actionBlock => exact afterBlock_withReturns _ chars
  | argBlock => exact afterBlock_withReturns _ chars

end GrammarLint.Grammar
