import GrammarLint.Proofs.Retelling
import GrammarLint.Proofs.Returns

/-!
# Tokens and gaps before another text

What is read of a text does not change with the text after it, as long as that starts
where the reading would end anyway: a name is not made longer, a comment is closed by
its line, and a block ends at its bracket.
-/

namespace GrammarLint.Grammar

open Text

/-! ## Trivia -/

theorem scanCommentBody?_first {comment : List Char} (rest : List Char)
    (hfirst : ¬['*', '/'] <:+: comment ++ ['*']) :
    scanCommentBody? (comment ++ '*' :: '/' :: rest) = some (comment ++ ['*', '/'], rest) := by
  induction comment with
  | nil => rfl
  | cons c comment ih =>
      have hmore : ¬['*', '/'] <:+: comment ++ ['*'] :=
        fun h => hfirst (h.trans (List.suffix_cons _ _).isInfix)
      have hclose : ¬(c = '*' ∧ (comment ++ '*' :: '/' :: rest).head? = some '/') := by
        rintro ⟨rfl, hhead⟩
        cases comment with
        | nil => exact absurd hhead (by simp)
        | cons d comment =>
            obtain rfl : d = '/' := by simpa using hhead
            exact hfirst (List.IsPrefix.isInfix ⟨comment ++ ['*'], rfl⟩)
      rw [List.cons_append, scanCommentBody?]
      · rw [ih hmore]
        rfl
      · rintro chars rfl htail
        exact hclose ⟨rfl, by simp [htail]⟩

theorem scanBlockComment?_first {comment : List Char} (rest : List Char)
    (hfirst : ¬['*', '/'] <:+: comment ++ ['*']) :
    scanBlockComment? ('/' :: '*' :: comment ++ '*' :: '/' :: rest) =
      some ('/' :: '*' :: comment ++ ['*', '/'], rest) := by
  simp [scanBlockComment?, scanCommentBody?_first rest hfirst]

theorem scanLineComment?_end {comment rest : List Char} (hline : '\n' ∉ comment)
    (hend : ∀ c ∈ rest.head?, c = '\n') :
    scanLineComment? ('/' :: '/' :: comment ++ rest) = some ('/' :: '/' :: comment, rest) := by
  have hstops : Stops (· != '\n') rest := fun c hc => by simp [hend c hc]
  have hall : ∀ c ∈ comment, (c != '\n') = true := by
    intro c hc
    simpa using fun hbreak : c = '\n' => hline (hbreak ▸ hc)
  have hsplit := takeWhile_append hall hstops
  simp [scanLineComment?, hsplit]

theorem afterTrivia_gap {gap rest : List Char} (hgap : Trivia gap rest) (hsolid : Solid rest) :
    afterTrivia (gap ++ rest) = rest := by
  induction hgap with
  | none rest =>
      have hscan := @scanTrivia_gap [] rest rfl hsolid
      exact congrArg Prod.snd hscan
  | space hspace _ ih => rw [List.cons_append, afterTrivia_space hspace, ih hsolid]
  | @line comment gap rest hline hend _ ih =>
      have hcomment := scanLineComment?_end hline hend
      rw [List.append_assoc, afterTrivia_comment (Option.or_eq_some_iff.2 (.inl hcomment)),
        ih hsolid]
  | @block comment gap rest hfirst _ ih =>
      have hcomment := scanBlockComment?_first (gap ++ rest) hfirst
      have hline :
          scanLineComment? ('/' :: '*' :: comment ++ '*' :: '/' :: (gap ++ rest)) = none := by
        simp [scanLineComment?]
      have hsplit : '/' :: '*' :: comment ++ '*' :: '/' :: gap ++ rest =
          '/' :: '*' :: comment ++ '*' :: '/' :: (gap ++ rest) := by simp
      rw [hsplit, afterTrivia_comment (Option.or_eq_some_iff.2 (.inr ⟨hline, hcomment⟩)), ih hsolid]

def EndsLine (chars : List Char) : Prop :=
  ∀ c ∈ chars.getLast?, c = '\n'

theorem EndsLine.suffix {chars rest : List Char} (h : EndsLine chars) (hsuffix : rest <:+ chars) :
    EndsLine rest := by
  obtain ⟨taken, rfl⟩ := hsuffix
  intro c hc
  refine h c ?_
  rw [List.getLast?_append, Option.mem_def.1 hc]
  rfl

theorem EndsLine.break_mem {chars : List Char} (h : EndsLine chars) (hne : chars ≠ []) :
    '\n' ∈ chars := by
  have hlast := h _ (List.getLast?_eq_some_getLast hne)
  exact hlast ▸ List.getLast_mem hne

theorem Trivia.before {gap rest after : List Char} (h : Trivia gap rest) (hsolid : Solid rest)
    (hends : rest = [] → after = [] ∨ EndsLine gap) : Trivia gap after := by
  induction h with
  | none => exact .none after
  | space hspace _ ih =>
      exact .space hspace (ih hsolid fun hrest => (hends hrest).imp_right
        fun hline => hline.suffix (List.suffix_cons _ _))
  | @line comment gap rest hline hend _ ih =>
      have hsuffix : gap <:+ '/' :: '/' :: comment ++ gap := List.suffix_append _ _
      refine .line hline ?_ (ih hsolid fun hrest => (hends hrest).imp_right
        fun hline => hline.suffix hsuffix)
      cases gap with
      | cons c gap => exact hend
      | nil =>
          cases rest with
          | cons c rest =>
              have hc := hend c rfl
              exact absurd (hsolid c rfl) (hc ▸ by decide)
          | nil =>
              rcases hends rfl with rfl | hbreak
              · nofun
              · have hmem := hbreak.break_mem (by simp)
                simp [hline] at hmem
  | @block comment gap rest hfirst _ ih =>
      have hsuffix : gap <:+ '/' :: '*' :: comment ++ '*' :: '/' :: gap :=
        ⟨'/' :: '*' :: comment ++ ['*', '/'], by simp⟩
      exact .block hfirst (ih hsolid fun hrest => (hends hrest).imp_right
        fun hline => hline.suffix hsuffix)

theorem exists_gap (chars : List Char) :
    ∃ gap, chars = gap ++ afterTrivia chars ∧ Trivia gap (afterTrivia chars) :=
  ⟨(scanTrivia 0 chars).1, (scanTrivia_split 0 chars).symm, trivia_scanTrivia chars⟩

/-! ## Tokens -/

/-- The second text is empty, or starts with trivia or as the first does. -/
def Resumes (rest after : List Char) : Prop :=
  ∀ c ∈ after.head?, isSpace c = true ∨ c = '/' ∨ c ∈ rest.head?

theorem Resumes.stops {p : Char → Bool} {rest after : List Char} (h : Resumes rest after)
    (hspace : ∀ c, isSpace c = true → p c = false) (hslash : p '/' = false)
    (hstops : Stops p rest) : Stops p after := by
  intro c hc
  rcases h c hc with hc | rfl | hc
  · exact hspace c hc
  · exact hslash
  · exact hstops c hc

theorem Stops.resume {p : Char → Bool} {taken rest after : List Char} (h : Stops p (taken ++ rest))
    (hafter : Stops p after) : Stops p (taken ++ after) := by
  cases taken with
  | nil => exact hafter
  | cons c taken => exact h

theorem Resumes.of_append {rest : List Char} (hne : rest ≠ []) (after more : List Char) :
    Resumes (rest ++ after) (rest ++ more) := by
  intro c hc
  rw [List.head?_append_of_ne_nil _ hne] at hc ⊢
  exact .inr (.inr hc)

theorem isIdentPart_of_isSpace {c : Char} (h : isSpace c = true) : isIdentPart c = false := by
  have hword := isWord_of_isSpace h
  by_contra hpart
  rw [Bool.not_eq_false] at hpart
  rw [isWord_of_isIdentPart hpart] at hword
  cases hword

theorem isDigit_of_isSpace {c : Char} (h : isSpace c = true) : c.isDigit = false := by
  have hpart := isIdentPart_of_isSpace h
  by_contra hdigit
  rw [Bool.not_eq_false] at hdigit
  rw [isIdentPart_of_isDigit hdigit] at hpart
  cases hpart

section Quoted

variable {quote : Char}

theorem scanQuotedBody?_closed (hslash : quote ≠ '\\') {chars taken rest : List Char}
    (h : scanQuotedBody? quote chars = some (taken, rest)) (after : List Char) :
    scanQuotedBody? quote (taken ++ after) = some (taken, after) := by
  fun_induction scanQuotedBody? quote chars generalizing taken with
  | case1 => cases h
  | case2 => cases h
  | case3 c chars hc ih =>
      obtain ⟨⟨body, rest⟩, hbody, heq⟩ := Option.map_eq_some_iff.1 h
      cases heq
      rw [List.cons_append, List.cons_append, scanQuotedBody?, if_neg hc, ih hbody]
      rfl
  | case4 chars =>
      cases h
      exact scanQuotedBody?_quote hslash after
  | case5 => cases h
  | case6 c chars _ hquote hends ih =>
      obtain ⟨⟨body, rest⟩, hbody, heq⟩ := Option.map_eq_some_iff.1 h
      cases heq
      rw [not_or] at hends
      rw [List.cons_append, scanQuotedBody?_ordinary hquote hends.2 hends.1, ih hbody]
      rfl

theorem scan?_quoted_closed (hslash : quote ≠ '\\') {chars taken rest : List Char}
    (h : (Pattern.quoted quote).scan? chars = some (taken, rest)) (after : List Char) :
    (Pattern.quoted quote).scan? (taken ++ after) = some (taken, after) := by
  cases chars with
  | nil => cases h
  | cons c chars =>
      rw [Pattern.scan?, Option.ite_none_right_eq_some] at h
      obtain ⟨rfl, h⟩ := h
      obtain ⟨⟨body, rest⟩, hbody, heq⟩ := Option.map_eq_some_iff.1 h
      cases heq
      simp [Pattern.scan?, scanQuotedBody?_closed hslash hbody]

theorem scanQuotedBody?_unclosed (hfeed : quote ≠ '\n') {chars : List Char}
    (h : scanQuotedBody? quote chars = none) (hbreak : '\n' ∈ chars) (after : List Char) :
    scanQuotedBody? quote (chars ++ after) = none := by
  fun_induction scanQuotedBody? quote chars with
  | case1 => cases hbreak
  | case2 => simp [scanQuotedBody?]
  | case3 c chars hc ih =>
      have hmem : '\n' ∈ chars := by simpa [Ne.symm hc] using hbreak
      rw [List.cons_append, List.cons_append, scanQuotedBody?, if_neg hc,
        ih (Option.map_eq_none_iff.1 h) hmem]
      rfl
  | case4 => cases h
  | case5 c chars hescape hquote hends =>
      rcases hends with rfl | rfl
      · exact scanQuotedBody?_break hfeed _
      · cases chars with
        | nil => simp at hbreak
        | cons d chars => exact absurd rfl (hescape d chars rfl)
  | case6 c chars _ hquote hends ih =>
      rw [not_or] at hends
      have hmem : '\n' ∈ chars := by simpa [Ne.symm hends.1] using hbreak
      rw [List.cons_append, scanQuotedBody?_ordinary hquote hends.2 hends.1,
        ih (Option.map_eq_none_iff.1 h) hmem]
      rfl

end Quoted

theorem stops_scanQualifiers {inName : Bool} {chars : List Char}
    (h : inName = false → Stops isIdentPart chars) :
    Stops isIdentPart (scanQualifiers inName chars).2 := by
  fun_induction scanQualifiers inName chars with
  | case1 => simp [Stops]
  | case2 inName c chars hpart more rest hmore ih =>
      rw [hmore] at ih
      exact ih (by simp)
  | case3 inName d chars hstart more rest hmore _ ih =>
      rw [hmore] at ih
      exact ih (by simp)
  | case4 => exact stops_cons.2 (by decide)
  | case5 inName c chars _ hpart =>
      cases inName with
      | false => exact h rfl
      | true => exact stops_cons.2 (by simpa using hpart)

theorem scanQualifiers_closed {after : List Char} (hstops : Stops isIdentPart after)
    (hdot : after.head? ≠ some '.') (inName : Bool) (chars : List Char) :
    scanQualifiers inName ((scanQualifiers inName chars).1 ++ after) =
      ((scanQualifiers inName chars).1, after) := by
  have hnone (inName : Bool) : scanQualifiers inName after = ([], after) := by
    cases after with
    | nil => rfl
    | cons c after =>
        rw [stops_cons] at hstops
        exact scanQualifiers_stop (by simp [hstops]) fun hc => absurd (congrArg some hc) hdot
  fun_induction scanQualifiers inName chars with
  | case1 => exact hnone _
  | case2 inName c chars hpart more rest hmore ih =>
      rw [hmore] at ih
      obtain ⟨rfl, hpart⟩ := Bool.and_eq_true_iff.1 hpart
      rw [List.cons_append, scanQualifiers_part hpart, ih]
  | case3 inName d chars hstart more rest hmore _ ih =>
      rw [hmore] at ih
      rw [List.cons_append, List.cons_append, scanQualifiers_dot _ hstart, ih]
  | case4 => exact hnone _
  | case5 => exact hnone _

namespace Terminal

theorem ne_nil_of_after? {type : Terminal} {chars rest : List Char}
    (h : type.after? (chars ++ rest) = some rest) : chars ≠ [] := by
  rintro rfl
  obtain ⟨trees, hyields, hchars⟩ := exists_yields h 0
  have hnullable := @Rule.nullable_of_body (.terminal type) (hyields.nullable hchars)
  simp [Rule.nullable] at hnullable

theorem after?_qualified_resumed {chars rest after : List Char}
    (h : Terminal.qualifiedId.after? (chars ++ rest) = some rest) (hresumes : Resumes rest after)
    (hdot : rest.head? ≠ some '.') :
    Terminal.qualifiedId.after? (chars ++ after) = some after := by
  obtain ⟨⟨taken, rest⟩, hscan, rfl⟩ := Option.map_eq_some_iff.1 h
  obtain rfl := List.append_cancel_right (Pattern.scan?_split hscan)
  obtain ⟨⟨name, more⟩, hname, heq⟩ := Option.map_eq_some_iff.1 hscan
  obtain ⟨rfl, rfl⟩ := Prod.mk.inj heq
  have hstops : Stops isIdentPart more := stops_of_scanIdentifier? hname
  have hafter := hresumes.stops (fun _ => isIdentPart_of_isSpace) (by decide)
    (stops_scanQualifiers fun _ => hstops)
  have hafterDot : after.head? ≠ some '.' := by
    intro hhead
    rcases hresumes '.' hhead with hc | hc | hc
    · exact absurd hc (by decide)
    · exact absurd hc (by decide)
    · exact hdot hc
  have hmore := scanQualifiers_closed hafter hafterDot false more
  have hfront : Stops isIdentPart ((scanQualifiers false more).1 ++ after) := by
    rw [← scanQualifiers_split false more] at hstops
    exact hstops.resume hafter
  rw [after?, List.append_assoc, Pattern.scan?,
    scanIdentifier?_name (isName_of_scanIdentifier? hname) hfront]
  simp [hmore]

theorem after?_integer_resumed {chars rest after : List Char}
    (h : Terminal.integer.after? (chars ++ rest) = some rest) (hresumes : Resumes rest after) :
    Terminal.integer.after? (chars ++ after) = some after := by
  obtain ⟨⟨taken, rest⟩, hscan, rfl⟩ := Option.map_eq_some_iff.1 h
  obtain rfl := List.append_cancel_right (Pattern.scan?_split hscan)
  simp only [Pattern.scan?] at hscan
  split at hscan
  · cases hscan
  · rename_i hne
    obtain ⟨htaken, hrest⟩ := Prod.mk.inj (Option.some.inj hscan)
    have hdigits : ∀ c ∈ taken, c.isDigit = true :=
      htaken ▸ fun c hc => List.mem_takeWhile_imp hc
    have hstops : Stops Char.isDigit rest := by
      intro c hc
      have hstop := List.head?_dropWhile_not Char.isDigit (taken ++ rest)
      rwa [hrest, Option.mem_def.1 hc] at hstop
    obtain ⟨htake, hdrop⟩ := takeWhile_append hdigits
      (hresumes.stops (fun _ => isDigit_of_isSpace) (by decide) hstops)
    rw [htaken] at hne
    simp [after?, Pattern.scan?, htake, hdrop]

theorem after?_resumed {type : Terminal} (htype : type ∉ blockTypes) {chars rest after : List Char}
    (h : type.after? (chars ++ rest) = some rest) (hresumes : Resumes rest after)
    (hdot : type = .qualifiedId → rest.head? ≠ some '.') :
    type.after? (chars ++ after) = some after := by
  have hquoted {quote : Char} (hslash : quote ≠ '\\')
      (h : ((Pattern.quoted quote).scan? (chars ++ rest)).map Prod.snd = some rest) :
      ((Pattern.quoted quote).scan? (chars ++ after)).map Prod.snd = some after := by
    obtain ⟨⟨taken, rest⟩, hscan, rfl⟩ := Option.map_eq_some_iff.1 h
    obtain rfl := List.append_cancel_right (Pattern.scan?_split hscan)
    rw [scan?_quoted_closed hslash hscan]
    rfl
  cases type with
  | keyword word =>
      obtain ⟨rfl, hstops⟩ := eq_of_after?_keyword h
      have hword := hresumes.stops (fun _ => isWord_of_isSpace) (by decide) hstops
      rw [after?_keyword word word.isName_text hword, if_pos rfl]
  | mark sign =>
      rw [after?_mark] at h ⊢
      rw [List.append_cancel_right h]
  | identifier =>
      obtain ⟨⟨taken, rest⟩, hscan, rfl⟩ := Option.map_eq_some_iff.1 h
      obtain rfl := List.append_cancel_right (scanIdentifier?_split hscan)
      have hstops := hresumes.stops (fun _ => isIdentPart_of_isSpace) (by decide)
        (stops_of_scanIdentifier? hscan)
      rw [after?, scanIdentifier?_name (isName_of_scanIdentifier? hscan) hstops]
      rfl
  | qualifiedId => exact after?_qualified_resumed h hresumes (hdot rfl)
  | stringLiteral => exact hquoted (by decide) h
  | doubleQuoted => exact hquoted (by decide) h
  | integer => exact after?_integer_resumed h hresumes
  | actionBlock => exact absurd (by decide) htype
  | argBlock => exact absurd (by decide) htype

end Terminal

theorem Mark.text_cases (sign : Mark) : (∃ c, sign.text.toList = [c]) ∨
    ∃ c d, sign.text.toList = [c, d] ∧ isSpace d = false ∧ d ≠ '/' := by
  cases sign <;> first | exact .inl ⟨_, rfl⟩ | exact .inr ⟨_, _, rfl, by decide, by decide⟩

theorem Terminal.after?_mark_resumed {sign : Mark} {chars rest after : List Char} (hne : chars ≠ [])
    (hresumes : Resumes rest after) (h : (mark sign).after? (chars ++ rest) = none) :
    (mark sign).after? (chars ++ after) = none := by
  by_contra hsome
  obtain ⟨found, hfound⟩ := Option.ne_none_iff_exists'.1 hsome
  rw [after?_mark] at hfound
  have hfirst : ∃ found, chars ++ rest = sign.text.toList ++ found := by
    obtain ⟨c, chars, rfl⟩ := List.exists_cons_of_ne_nil hne
    rcases sign.text_cases with ⟨a, htext⟩ | ⟨a, b, htext, hspace, hslash⟩
    · rw [htext] at hfound ⊢
      obtain ⟨rfl, -⟩ := List.cons.inj hfound
      exact ⟨chars ++ rest, rfl⟩
    · rw [htext] at hfound ⊢
      obtain ⟨rfl, hmore⟩ := List.cons.inj hfound
      cases chars with
      | cons d chars =>
          obtain ⟨rfl, -⟩ := List.cons.inj hmore
          exact ⟨chars ++ rest, rfl⟩
      | nil =>
          have hafter : after = b :: found := hmore
          rcases hresumes b (hafter ▸ rfl) with hb | rfl | hb
          · rw [hspace] at hb
            cases hb
          · exact absurd rfl hslash
          · obtain ⟨more, rfl⟩ := List.head?_eq_some_iff.1 hb
            exact ⟨more, rfl⟩
  obtain ⟨found, hfirst⟩ := hfirst
  rw [after?_mark.2 hfirst] at h
  cases h

/-! ## Blocks -/

namespace Enclosure

variable {enclosure : Enclosure} {depth : Nat} {chars rest : List Char}

theorem skim_ne_self (h : enclosure.skim depth rest = some rest) : False := by
  obtain ⟨inner, hinner⟩ := skim_split h
  have := congrArg List.length hinner
  simp only [List.length_append, List.length_cons] at this
  omega

theorem skim_resumed {after : List Char}
    (hhop : ∀ c part inner, c :: part <:+ chars →
      enclosure.hop (c :: part ++ rest) = inner ++ enclosure.closing :: rest →
        enclosure.hop (c :: part ++ after) = inner ++ enclosure.closing :: after)
    (h : enclosure.skim depth (chars ++ rest) = some rest) :
    enclosure.skim depth (chars ++ after) = some after := by
  induction hlength : chars.length using Nat.strong_induction_on generalizing depth chars with
  | _ length ih =>
      subst hlength
      cases chars with
      | nil => exact (skim_ne_self h).elim
      | cons c chars =>
          have hlater : ∀ part, part <:+ c :: chars → part.length < (c :: chars).length →
              ∀ depth, enclosure.skim depth (part ++ rest) = some rest →
                enclosure.skim depth (part ++ after) = some after :=
            fun part hpart hshorter depth hskim =>
              ih _ hshorter (fun d other inner hother => hhop d other inner (hother.trans hpart))
                hskim rfl
          rw [List.cons_append] at h ⊢
          by_cases hclosing : c = enclosure.closing
          · subst hclosing
            cases depth with
            | zero =>
                rw [skim_closing_zero, Option.some.injEq, List.append_left_eq_self] at h
                subst h
                exact skim_closing_zero _ _
            | succ depth =>
                rw [skim_closing_succ] at h ⊢
                exact hlater chars (List.suffix_cons _ _) (by simp) depth h
          · by_cases hopening : c = enclosure.opening
            · subst hopening
              rw [skim_opening] at h ⊢
              exact hlater chars (List.suffix_cons _ _) (by simp) _ h
            · rw [skim_hop _ hclosing hopening] at h ⊢
              obtain ⟨inner, hinner⟩ := skim_split h
              have hother := hhop c chars inner List.suffix_rfl hinner
              have hsuffix : inner ++ [enclosure.closing] <:+ c :: chars := by
                obtain ⟨taken, htaken⟩ := enclosure.hop_suffix (c :: (chars ++ rest))
                rw [hinner, List.append_cons, ← List.append_assoc, ← List.cons_append] at htaken
                exact ⟨taken, List.append_cancel_right htaken⟩
              have hshorter := enclosure.hop_length c (chars ++ rest)
              rw [hinner] at h hshorter
              rw [List.cons_append] at hother
              rw [hother, List.append_cons]
              rw [List.append_cons] at h
              refine hlater _ hsuffix ?_ depth h
              simp only [List.length_append, List.length_cons, List.length_nil] at hshorter ⊢
              omega

theorem hop_calm {c : Char} (h : c ∉ ['"', '\'', '/']) (chars : List Char) :
    enclosure.hop (c :: chars) = chars := by
  simp only [List.mem_cons, List.not_mem_nil, or_false, not_or] at h
  exact hop_plain h.1 h.2.1 (comment?_eq_none _ _ (.inr h.2.2))

theorem skim_calm (hcalm : ∀ c ∈ ['"', '\'', '/'], c ∉ chars)
    (h : enclosure.skim depth (chars ++ rest) = some rest) (after : List Char) :
    enclosure.skim depth (chars ++ after) = some after := by
  refine skim_resumed (fun c part inner hpart hinner => ?_) h
  have hc : c ∉ ['"', '\'', '/'] := fun hmem => hcalm c hmem (hpart.subset List.mem_cons_self)
  rw [List.cons_append, hop_calm hc] at hinner ⊢
  rw [List.append_cons] at hinner ⊢
  rw [List.append_cancel_right hinner]

structure Halts (enclosure : Enclosure) (chars : List Char) : Prop where
  line_break : '\n' ∈ chars
  no_comment : enclosure = .braces → ¬['/', '*'] <+: chars

theorem comment?_append (h : enclosure.Halts chars) (more : List Char) :
    enclosure.comment? (chars ++ more) =
      (enclosure.comment? chars).map fun found => (found.1, found.2 ++ more) := by
  cases enclosure with
  | brackets => rfl
  | braces =>
      obtain ⟨hbreak, hblock⟩ := h
      cases chars with
      | nil => cases hbreak
      | cons c chars =>
          by_cases hslash : c = '/'
          · subst hslash
            cases chars with
            | nil => simp at hbreak
            | cons d chars =>
                have hstar : d ≠ '*' := fun hd => hblock rfl ⟨chars, by rw [hd]; rfl⟩
                by_cases hline : d = '/'
                · subst hline
                  have hmem : '\n' ∈ chars := by simpa using hbreak
                  obtain ⟨comment, rest, rfl, hcomment⟩ := List.eq_append_cons_of_mem hmem
                  have hend := @scanLineComment?_end comment ('\n' :: rest) hcomment (by simp)
                  have hmore :=
                    @scanLineComment?_end comment ('\n' :: rest ++ more) hcomment (by simp)
                  simp only [List.cons_append, List.append_assoc] at hend hmore ⊢
                  simp [comment?, hend, hmore]
                · simp [comment?, scanLineComment?_eq, scanBlockComment?_eq, Ne.symm hline,
                    Ne.symm hstar, List.isPrefixOf]
          · rw [List.cons_append, comment?_eq_none _ _ (.inr hslash),
              comment?_eq_none _ _ (.inr hslash)]
            rfl

theorem hop_append (h : enclosure.Halts chars) (more : List Char) :
    enclosure.hop (chars ++ more) = enclosure.hop chars ++ more := by
  have hquoted (quote : Char) (hslash : quote ≠ '\\') (hfeed : quote ≠ '\n') :
      (Pattern.quoted quote).scan? (chars ++ more) =
        ((Pattern.quoted quote).scan? chars).map fun found => (found.1, found.2 ++ more) := by
    cases hscan : (Pattern.quoted quote).scan? chars with
    | some found =>
        obtain ⟨taken, rest⟩ := found
        rw [← Pattern.scan?_split hscan, List.append_assoc, scan?_quoted_closed hslash hscan]
        rfl
    | none =>
        cases chars with
        | nil => exact absurd h.line_break List.not_mem_nil
        | cons c chars =>
            rw [Pattern.scan?, ite_eq_right_iff] at hscan
            rw [List.cons_append, Pattern.scan?]
            split
            · subst c
              have hmem : '\n' ∈ chars := by simpa [Ne.symm hfeed] using h.line_break
              rw [scanQuotedBody?_unclosed hfeed (Option.map_eq_none_iff.1 (hscan rfl)) hmem]
              rfl
            · rfl
  simp only [hop, hquoted '"' (by decide) (by decide), hquoted '\'' (by decide) (by decide),
    comment?_append h]
  cases (Pattern.quoted '"').scan? chars with
  | some found => rfl
  | none =>
      cases (Pattern.quoted '\'').scan? chars with
      | some found => rfl
      | none =>
          cases enclosure.comment? chars with
          | some found => rfl
          | none =>
              cases chars with
              | nil => exact absurd h.line_break List.not_mem_nil
              | cons c chars => rfl

theorem skim_append (hbreak : '\n' ∈ rest)
    (hcomment : enclosure = .braces → ¬['/', '*'] <:+: chars)
    (h : enclosure.skim depth (chars ++ rest) = some rest) (more : List Char) :
    enclosure.skim depth (chars ++ (rest ++ more)) = some (rest ++ more) := by
  refine skim_resumed (fun c part inner hpart hinner => ?_) h
  have hhalts : enclosure.Halts (c :: part ++ rest) := by
    refine ⟨List.mem_append_right _ hbreak, fun hbraces hfront => hcomment hbraces ?_⟩
    cases part with
    | nil =>
        have hshorter := enclosure.hop_length c rest
        rw [show c :: rest = [c] ++ rest from rfl, hinner] at hshorter
        simp only [List.length_append, List.length_cons, List.length_nil] at hshorter
        omega
    | cons d part =>
        obtain ⟨tail, hfront⟩ := hfront
        obtain ⟨rfl, htail⟩ := List.cons.inj hfront
        obtain ⟨rfl, -⟩ := List.cons.inj htail
        exact (List.IsPrefix.isInfix ⟨part, rfl⟩).trans hpart.isInfix
  rw [← List.append_assoc, hop_append hhalts, hinner]
  simp

end Enclosure

section Blocks

variable {type : Terminal} {chars rest : List Char} (htype : type ∈ blockTypes)
  (h : type.after? (chars ++ rest) = some rest)

include htype h

theorem Terminal.after?_calm (hcalm : ∀ c ∈ ['"', '\'', '/'], c ∉ chars) (after : List Char) :
    type.after? (chars ++ after) = some after := by
  obtain ⟨enclosure, rfl⟩ := Enclosure.exists_terminal htype
  obtain ⟨c, chars, rfl⟩ := List.exists_cons_of_ne_nil (Terminal.ne_nil_of_after? h)
  rw [List.cons_append, Enclosure.after?_terminal, Enclosure.afterBlock_cons] at h ⊢
  have hinner : ∀ c ∈ ['"', '\'', '/'], c ∉ chars :=
    fun d hd hmem => hcalm d hd (List.mem_cons_of_mem c hmem)
  exact ⟨h.1, Enclosure.skim_calm hinner h.2 after⟩

/-- A block is read before any text that goes on after a line break, unless there are comments
in it that go over lines. -/
theorem Terminal.after?_append (hbreak : '\n' ∈ rest)
    (hcomment : type = .actionBlock → ¬['/', '*'] <:+: chars) (more : List Char) :
    type.after? (chars ++ (rest ++ more)) = some (rest ++ more) := by
  obtain ⟨enclosure, rfl⟩ := Enclosure.exists_terminal htype
  obtain ⟨c, chars, rfl⟩ := List.exists_cons_of_ne_nil (Terminal.ne_nil_of_after? h)
  rw [List.cons_append, Enclosure.after?_terminal, Enclosure.afterBlock_cons] at h ⊢
  refine ⟨h.1, Enclosure.skim_append hbreak (fun hbraces hinside => ?_) h.2 more⟩
  subst hbraces
  exact hcomment rfl (hinside.trans (List.suffix_cons _ _).isInfix)

end Blocks

end GrammarLint.Grammar
