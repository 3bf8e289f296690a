import BeIndexer.Refinement.Container

/-!
# Compiling

What `compileIndexer` does to the containers of an index, one holder at a time.
-/

namespace BeIndexer

variable [AhoMachine]

theorem EntriesHolder.compile_kind {h h' : EntriesHolder} (run : h.compileEntries = .ok h') : h'.kind = h.kind := by
  cases h with
  | default h =>
    obtain rfl := Except.ok.inj run
    rfl
  | range h =>
    obtain rfl := Except.ok.inj run
    rfl
  | optimizedRange h =>
    obtain ⟨h'', compiled, rfl⟩ := map_eq_ok.mp run
    obtain ⟨_, _, done⟩ := bind_eq_ok.mp compiled
    obtain rfl := Except.ok.inj done
    rfl
  | acMatcher h =>
    obtain ⟨h'', compiled, rfl⟩ := map_eq_ok.mp run
    unfold ACEntriesHolder.compileEntries at compiled
    dsimp only at compiled
    split at compiled
    · obtain rfl := Except.ok.inj compiled
      rfl
    · obtain ⟨_, _, done⟩ := bind_eq_ok.mp compiled
      obtain rfl := Except.ok.inj done
      rfl

namespace EntriesContainer

def Compiled (h h' : Option EntriesHolder) : Prop :=
  (h = none ∧ h' = none) ∨ ∃ g g', h = some g ∧ h' = some g' ∧ g.compileEntries = .ok g'

theorem compileHolders_lookup {entries : List (Sigma fun _ : BEField => EntriesHolder)}
    {acc done : GoMap BEField EntriesHolder} (nodup : entries.NodupKeys)
    (run : entries.foldlM (fun compiled e => do
      let holder ← e.2.compileEntries
      return compiled.insert e.1 holder) acc = .ok done) (f : BEField) :
    (f ∉ entries.keys ∧ done.lookup f = acc.lookup f) ∨
      ∃ g g', ⟨f, g⟩ ∈ entries ∧ done.lookup f = some g' ∧ g.compileEntries = .ok g' := by
  induction entries generalizing acc with
  | nil =>
    obtain rfl := Except.ok.inj run
    exact Or.inl ⟨by simp, rfl⟩
  | cons e entries ih =>
    obtain ⟨head, tail⟩ := List.nodupKeys_cons.mp nodup
    rw [List.foldlM_cons] at run
    obtain ⟨next, step, rest⟩ := bind_eq_ok.mp run
    obtain ⟨holder, compiled, ret⟩ := bind_eq_ok.mp step
    obtain rfl := Except.ok.inj ret
    rcases ih tail rest with ⟨missing, same⟩ | ⟨g, g', mem, found, compiled'⟩
    · by_cases here : f = e.1
      · subst here
        exact Or.inr ⟨e.2, holder, List.mem_cons_self, by rw [same, AList.lookup_insert], compiled⟩
      · refine Or.inl ⟨by simp [here, missing], ?_⟩
        rw [same, AList.lookup_insert_ne here]
    · exact Or.inr ⟨g, g', List.mem_cons_of_mem _ mem, found, compiled'⟩

variable {c c' : EntriesContainer}

theorem compileEntries_spec (run : c.compileEntries = .ok c') :
    c'.defaultHolder = c.defaultHolder.compileEntries ∧
      ∀ f, Compiled (c.fieldHolder.lookup f) (c'.fieldHolder.lookup f) := by
  obtain ⟨holders, compiled, done⟩ := bind_eq_ok.mp run
  obtain rfl := Except.ok.inj done
  refine ⟨rfl, fun f => ?_⟩
  rcases compileHolders_lookup c.fieldHolder.nodupKeys compiled f with ⟨missing, same⟩ | ⟨g, g', mem, found, compiled'⟩
  · refine Or.inl ⟨AList.lookup_eq_none.mpr missing, ?_⟩
    rw [same]
    rfl
  · exact Or.inr ⟨g, g', AList.mem_lookup_iff.mpr mem, found, compiled'⟩

theorem compile_fits {t : FieldTable} (fits : c.Fits t) (run : c.compileEntries = .ok c') : c'.Fits t := by
  obtain ⟨default, holders⟩ := compileEntries_spec run
  refine ⟨fun term unused => ?_, fun f h found => ?_⟩
  · rw [default, DefaultEntriesHolder.compileEntries]
    simp only [fits.unused term unused]
    rfl
  · rcases holders f with ⟨_, missing⟩ | ⟨g, g', before, after, compiled⟩
    · rw [missing] at found
      cases found
    · rw [after] at found
      obtain rfl := Option.some.inj found
      obtain ⟨desc, known, named, of⟩ := fits.kinds f g before
      refine ⟨desc, known, named, ?_⟩
      rw [EntriesHolder.Of, EntriesHolder.compile_kind compiled]
      exact of

theorem compile_fresh : newFieldEntriesContainer.compileEntries = .ok newFieldEntriesContainer := rfl

end EntriesContainer

namespace BEIndex

variable {idx idx' : BEIndex}

theorem compileIndexer_spec (run : idx.compileIndexer = .ok idx') :
    (∀ k, (idx.container k).compileEntries = .ok (idx'.container k)) ∧
      (∀ k, idx'.HasContainer k ↔ idx.HasContainer k) ∧ idx'.isCompact = idx.isCompact ∧
      idx'.base.fieldsData = idx.base.fieldsData ∧
      idx'.base.wildcardEntries = sortEntries idx.base.wildcardEntries := by
  cases idx with
  | compact bi =>
    obtain ⟨bi', compiled, rfl⟩ := map_eq_ok.mp run
    obtain ⟨c, holders, done⟩ := bind_eq_ok.mp compiled
    obtain rfl := Except.ok.inj done
    exact ⟨fun _ => holders, fun _ => Iff.rfl, rfl, rfl, rfl⟩
  | kgroups bi =>
    obtain ⟨bi', compiled, rfl⟩ := map_eq_ok.mp run
    obtain ⟨cs, containers, done⟩ := bind_eq_ok.mp compiled
    obtain rfl := Except.ok.inj done
    have each := mapM_eq_ok.mp containers
    have length := each.length_eq
    refine ⟨fun k => ?_, fun k => ?_, rfl, rfl, rfl⟩
    · simp only [container]
      by_cases inside : k < bi.kSizeContainers.length
      · rw [List.getD_eq_getElem _ _ inside, List.getD_eq_getElem _ _ (length ▸ inside)]
        exact each.get inside (length ▸ inside)
      · rw [List.getD_eq_default _ _ (not_lt.mp inside), List.getD_eq_default _ _ (length ▸ not_lt.mp inside)]
        exact EntriesContainer.compile_fresh
    · simp only [HasContainer, length]

end BEIndex

theorem IndexerBuilder.buildIndex_spec {b b' : IndexerBuilder} (run : b.buildIndex = .ok b') :
    b' = { b with indexer := b'.indexer } ∧
      (∀ k, (b.indexer.container k).compileEntries = .ok (b'.indexer.container k)) ∧
      (∀ k, b'.indexer.HasContainer k ↔ b.indexer.HasContainer k) ∧ b'.indexer.isCompact = b.indexer.isCompact ∧
      b'.indexer.base.fieldsData = b.fieldsData ∧
      b'.indexer.base.wildcardEntries = sortEntries b.indexer.base.wildcardEntries := by
  obtain ⟨idx, compiled, done⟩ := bind_eq_ok.mp run
  obtain rfl := Except.ok.inj done
  obtain ⟨containers, sizes, kind, table, wildcard⟩ := BEIndex.compileIndexer_spec (panicIfErr_eq_ok.mp compiled)
  refine ⟨rfl, fun k => ?_, fun k => ?_, ?_, ?_, ?_⟩
  · rw [← containers k, BEIndex.setFieldDesc_container]
  · rw [sizes k, BEIndex.setFieldDesc_has]
  · rw [kind, BEIndex.setFieldDesc_isCompact]
  · rw [table]
    cases b.indexer <;> rfl
  · rw [wildcard, BEIndex.setFieldDesc_wildcard]

end BeIndexer
