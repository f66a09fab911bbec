import CellScript.Files.Sources

/-!
# The files that an include can lead to

The path of an included file is made of the names of a file of the tree, so there are only finitely
many of them, however the includes are written: dots are resolved along the way that was walked, and
a path from the root keeps at most the choice between one slash and two in front.

* `FileTree.filePaths`: the paths that entries of a tree can have;
* `Sources.mem_filePaths_of_resolve?`: the path of an included file is one of them.
-/

namespace CellScript

namespace FileTree

/-- The absolute paths of the entries: a path may begin with one slash or two. -/
def filePaths (t : FileTree) : List String :=
  t.entries.flatMap fun e => ["/", "//"].map (· ++ String.intercalate "/" e.1)

theorem length_filePaths (t : FileTree) : t.filePaths.length = 2 * t.entries.length := by
  simp only [filePaths, List.length_flatMap, List.length_map, List.length_cons, List.length_nil]
  induction t.entries with
  | nil => rfl
  | cons e es ih =>
    simp only [List.map_cons, List.sum_cons, List.length_cons] at ih ⊢
    omega

/-- A walk ends at the entry that the resolved names lead to. -/
theorem entry?_of_walk {t : FileTree} {e : FileEntry} {names here : List String}
    (hhere : ".." ∉ here) (h : t.walk here names = .ok e) :
    t.entry? (Path.resolveDots true here names) = some e := by
  induction names generalizing here with
  | nil =>
    unfold walk at h
    unfold Path.resolveDots
    split at h
    · next he =>
      cases h
      exact he
    · cases h
  | cons n rest ih =>
    unfold walk at h
    unfold Path.resolveDots
    split at h
    · cases h
    · cases h
    · by_cases hskip : (n == "" || n == ".") = true
      · rw [if_pos hskip] at h ⊢
        exact ih hhere h
      rw [if_neg hskip] at h ⊢
      by_cases hup : (n == "..") = true
      · rw [if_pos hup] at h ⊢
        cases here with
        | nil => exact ih hhere h
        | cons k more =>
          have hk : (k == "..") = false := by
            simpa using fun h : k = ".." => hhere (h ▸ List.mem_cons_self)
          simp only [hk]
          exact ih (fun hm => hhere (List.mem_cons_of_mem _ hm)) h
      · rw [if_neg hup] at h ⊢
        split at h
        · cases h
        · refine ih (fun hm => ?_) h
          rcases List.mem_cons.1 hm with rfl | hm
          · exact hup (beq_self_eq_true _)
          · exact hhere hm

/-- The names of a file are those of an entry. -/
theorem mem_entries_of_entry? {t : FileTree} {names : List String} {bytes : List UInt8}
    (h : t.entry? names = some (.file bytes)) : (names, .file bytes) ∈ t.entries := by
  unfold entry? at h
  split at h
  · cases h
  · obtain ⟨⟨names', e⟩, hfind, rfl⟩ := Option.map_eq_some_iff.1 h
    have hnames : names' = names := by simpa using List.find?_some hfind
    exact hnames ▸ List.mem_of_find?_eq_some hfind

end FileTree

namespace Path

/-- A path taken from an absolute directory is absolute. -/
theorem isAbsolute_join {directory : String} (path : String) (h : isAbsolute directory = true) :
    isAbsolute (join directory path) = true := by
  have front (more : String) : isAbsolute (directory ++ more) = true := by
    unfold isAbsolute at h ⊢
    rw [String.toList_append]
    cases hcs : directory.toList with
    | nil => simp [hcs] at h
    | cons c cs => simpa [hcs] using h
  unfold join
  split
  · assumption
  · split
    · exact front _
    · rw [String.append_assoc]
      exact front _

theorem rootMark_of_isAbsolute {path : String} (h : isAbsolute path = true) :
    rootMark path = "/" ∨ rootMark path = "//" := by
  unfold isAbsolute at h
  unfold rootMark
  split
  · exact .inl rfl
  · exact .inr rfl
  · exact .inl rfl
  · next hnot =>
    cases hcs : path.toList with
    | nil => simp [hcs] at h
    | cons c cs =>
      have hc : c = '/' := by simpa [hcs] using h
      exact absurd (hc ▸ hcs) (hnot _)

/-- The normalized form of an absolute path. -/
theorem normalized_of_isAbsolute {path : String} (h : isAbsolute path = true) :
    normalized path =
      rootMark path ++ String.intercalate "/" (resolveDots true [] (names path)) := by
  have hmark : (rootMark path).isEmpty = false := by
    rcases rootMark_of_isAbsolute h with h | h <;> rw [h] <;> decide
  unfold normalized
  have hresult : (rootMark path ++ String.intercalate "/"
      (resolveDots (!(rootMark path).isEmpty) [] (names path))).isEmpty = false := by
    rw [String.isEmpty_eq_false_iff] at hmark ⊢
    exact fun hempty => hmark (String.append_eq_empty_iff.1 hempty).1
  dsimp only
  rw [if_neg (by simp [hresult]), hmark]
  rfl

end Path

/-- Seen from an absolute working directory, the path of a file is one of the tree's. -/
theorem FileTree.mem_filePaths_of_isFile {t : FileTree} {path : String}
    (hdir : Path.isAbsolute t.workingDirectory = true) (h : t.isFile path = true) :
    t.absolute path ∈ t.filePaths := by
  have habs := Path.isAbsolute_join path hdir
  unfold isFile at h
  split at h
  · next bytes hfind =>
    unfold find at hfind
    split at hfind <;> try cases hfind
    split at hfind <;> try cases hfind
    split at hfind <;> try cases hfind
    have hmem := mem_entries_of_entry? (entry?_of_walk (by simp) hfind)
    unfold absolute Path.absolute
    rw [Path.normalized_of_isAbsolute habs]
    refine List.mem_flatMap.2 ⟨_, hmem, List.mem_map.2 ⟨_, ?_, rfl⟩⟩
    rcases Path.rootMark_of_isAbsolute habs with h | h <;> simp [h]
  · cases h

/-- An include leads to a file of the tree. -/
theorem Sources.mem_filePaths_of_resolve? {l : Sources} {includer : Option String}
    {name path : String} (hdir : Path.isAbsolute l.files.workingDirectory = true)
    (h : l.resolve? includer name = some path) : path ∈ l.files.filePaths := by
  obtain ⟨candidate, hfind, rfl⟩ := Option.map_eq_some_iff.1 h
  exact FileTree.mem_filePaths_of_isFile hdir (List.find?_some hfind)

end CellScript
