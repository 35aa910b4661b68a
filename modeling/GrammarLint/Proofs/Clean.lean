import GrammarLint.Proofs.Silence

/-!
# Clean grammars

A grammar that is written by the conventions is read as its tree, and the default
checks report nothing about it.
-/

namespace GrammarLint

open Files Text

namespace Layout

variable {layout : Layout} {source : Source}

theorem TidyRoot.enter (h : TidyRoot layout source)
    (hknown : ∀ token ∈ source.tokens.toList, source.tokens.toList[token.index]? = some token)
    {convention : Convention} {settings : Settings} {site : Site}
    (hconvention : convention ≠ .header) (hsettings : settings.spaced = true)
    (hchild : site.node ∈ source.root.children) (hkind : site.node.kind ∈ convention.kinds) :
    convention.enter settings (some source) site = .silent := by
  have hnone {judge : Node → List Remark}
      (hjudge : ∀ entry ∈ site.node.children, judge entry = []) :
      site.node.children.flatMap judge = [] :=
    List.flatMap_eq_nil_iff.2 hjudge
  have hindentation {block : Check.Indentation.Block} {judge : Node → List Remark}
      (hjudge : ∀ entry ∈ site.node.children, judge entry = []) :
      Check.Indentation.enter block judge site = [] := by
    unfold Check.Indentation.enter
    split
    · split
      · exact hnone hjudge
      · rfl
    · rfl
  cases convention with
  | header => exact absurd rfl hconvention
  | optionsIndentation =>
      have htidy := h.blocks _ hchild (.inl (List.mem_singleton.1 hkind))
      rw [Convention.enter, hindentation fun entry hentry => (htidy entry hentry).judgeOption]
      rfl
  | optionsSpacing =>
      have htidy := h.blocks _ hchild (.inl (List.mem_singleton.1 hkind))
      rw [Convention.enter, hsettings, Check.Spacing.enter,
        hnone fun entry hentry => (htidy entry hentry).judgeEntry _]
      rfl
  | delimiters => exact (h.rules _ hchild (List.mem_singleton.1 hkind)).enter hknown
  | tokensIndentation =>
      have htidy := h.blocks _ hchild (.inr (List.mem_singleton.1 hkind))
      rw [Convention.enter, hindentation fun entry hentry => (htidy entry hentry).judgeToken]
      rfl
  | tokenNames =>
      have hbares := h.tokens _ hchild (List.mem_singleton.1 hkind)
      rw [Convention.enter, Check.TokenNames.enter, hnone]
      · rfl
      · intro entry hentry
        have hmem : entry.bare ∈ layout.entries.map entryNode := by
          rw [← hbares]
          exact List.mem_map_of_mem hentry
        obtain ⟨given, hgiven, hbare⟩ := List.mem_map.1 hmem
        exact judge_name hbare.symm hgiven
  | tokenOrder =>
      have hbares := h.tokens _ hchild (List.mem_singleton.1 hkind)
      have hfollows := follows_entries layout
      rw [← hbares, List.pairwise_map] at hfollows
      rw [Convention.enter, Check.TokenOrder.enter,
        judge_of_follows (List.pairwise_map.2 (hfollows.imp follows_bare))]
      rfl
  | tokensSpacing =>
      have htidy := h.blocks _ hchild (.inr (List.mem_singleton.1 hkind))
      rw [Convention.enter, hsettings, Check.Spacing.enter,
        hnone fun entry hentry => (htidy entry hentry).judgeEntry _]
      rfl

end Layout

/-! ## Default checks -/

namespace Walker

theorem Employed.of_default {fs : FileSystem} {check : Check} {convention : Convention}
    {settings : Settings} (h : Employed fs (defaultConfigs none) check convention settings) :
    convention ≠ .header ∧ settings.spaced = true := by
  obtain ⟨config, hconfig, identity, hfind, hprepare, -⟩ := h
  obtain ⟨plain, hplain, rfl⟩ := List.mem_map.1 hconfig
  have hsame : Catalogue.standard.find? plain.name = some plain := by
    cases plain <;> decide
  obtain rfl := Option.some.inj (hfind.symm.trans hsame)
  cases convention with
  | header => simp [Convention.needsSettings] at hplain
  | _ =>
      cases hprepare
      exact ⟨by decide, rfl⟩

end Walker

namespace Layout

open Walker

/-- A grammar that is written by the conventions is clean.  Its text is read as its
tree; the default checks are set up, all seven of them, and processing the text
gives no fault and no diagnostic. -/
theorem text_clean (layout : Layout) (fs : FileSystem) (file : String) :
    ∃ source, Source.parse layout.text (some file) = .ok source ∧
      source.root.bare = layout.tree ∧
      (setupAll {} fs (defaultConfigs none)).result =
        .ok (Convention.all.filter (!·.needsSettings)) ∧
      ((setupAll {} fs (defaultConfigs none)).walker.process fs file (some layout.text)).2.2 =
        ⟨file, some source, none, []⟩ := by
  obtain ⟨source, hparse, ⟨parts⟩⟩ := layout.parse_text (some file)
  refine ⟨source, hparse, parts.root_bare, setupAll_plain _ fs (by decide), ?_⟩
  refine process_of_silent fs hparse fun call hcall => ?_
  have hstaffed : Staffed fs (defaultConfigs none)
      (setupAll {} fs (defaultConfigs none)).walker :=
    staffed_empty.setupAll (List.Subset.refl _)
  rcases mem_calls hcall with ⟨hcheck, hcall⟩ | ⟨site, hsite, hcheck, hcall⟩
  · obtain ⟨convention, settings, hemployed⟩ := hstaffed.checks _ hcheck
    refine hemployed.respond_other ?_
    rcases hcall with hcall | hcall <;> simp [hcall]
  · obtain ⟨convention, settings, hemployed, hkind⟩ := hstaffed.subscribers _ _ hcheck
    rcases hcall with hcall | hcall
    · obtain ⟨hconvention, hsettings⟩ := hemployed.of_default
      rw [hcall, hemployed.respond_enter]
      have hwatched : watched site.node.kind = true := by
        cases convention <;> simp_all [Convention.kinds, watched]
      exact parts.tidyRoot.enter (fun token htoken => (Source.known hparse htoken).at_index)
        hconvention hsettings (mem_children_of_watched parts.root_bare hsite hwatched) hkind
    · exact hemployed.respond_other (by simp [hcall])

end Layout

end GrammarLint
