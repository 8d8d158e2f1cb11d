import EsmCompletion.Proofs.Imports.Resolution

/-! # The paths of modules

In a file with an absolute name every alias stands for an absolute path in normal form whose last
name ends in `.js`: what is captured ends so, and no dots behind it can take the last name away.
Such a path is written with the names of one place, so that two of them that lead to the same place
are the same. -/

namespace EsmCompletion

namespace Path

/-- The absolute paths in normal form, without empty segments and dots, that end in `.js`. -/
structure IsModule (path : Path) : Prop where
  absolute : path.isAbsolute = true
  normal : path.IsNormal
  names : ∀ segment ∈ path.segments.tail, IsName segment
  ending : ∃ name, path.segments.getLast? = some name ∧ ".js".toList <:+ name.toList

theorem IsName.of_ending {name : String} (h : ".js".toList <:+ name.toList)
    (hs : '/' ∉ name.toList) : IsName name := by
  refine ⟨?_, ?_, ?_, hs⟩ <;> rintro rfl <;> exact absurd h (by decide)

theorem suffix_text_join (directory path : Path) :
    path.text.toList <:+ (directory.join path).text.toList := by
  unfold join
  split
  · exact List.suffix_rfl
  · split
    · exact ⟨directory.text.toList, by simp⟩
    · exact ⟨directory.text.toList ++ ['/'], by simp⟩

/-- A last name stays the last one. -/
theorem getLast?_resolved {path : Path} {before : List String} {name : String}
    (h : path.segments = before ++ [name]) (hn : IsName name) :
    path.resolved.getLast? = some (.normal name) := by
  rw [resolved_eq, inner, filterMap_segments_concat h hn]
  simp [pushComponent]

/-- The normal form of an absolute path that ends in `.js` is the path of a module. -/
theorem isModule_normalize {path : Path} (ha : path.isAbsolute = true)
    (h : ".js".toList <:+ path.text.toList) : path.normalize.IsModule := by
  obtain ⟨before, name, hsegments, hname⟩ := exists_segments_of_ending (by decide) h
  have hn : IsName name := .of_ending hname
    (slash_not_mem_segment (by rw [hsegments]; exact List.mem_concat_self))
  have hlast := getLast?_resolved hsegments hn
  obtain ⟨place, hplace, hnormal⟩ := FileTree.exists_normalize_eq_path ha
  rw [← components_normalize, hnormal, FileTree.components_path hplace] at hlast
  cases place with
  | nil => cases hlast
  | cons last directory =>
    obtain rfl : last = name := by simpa [List.getLast?_cons] using hlast
    have hwritten := FileTree.segments_path (List.cons_ne_nil last directory) hplace
    rw [← hnormal] at hwritten
    refine ⟨?_, isNormal_normalize path, ?_, last, ?_, hname⟩
    · rw [hnormal]
      exact FileTree.isAbsolute_path _
    · rw [hwritten]
      exact fun segment hs => hplace segment (List.mem_reverse.1 hs)
    · simp [hwritten, List.getLast?_cons]

/-- Where the path of a module leads, it is the path of that place. -/
theorem IsModule.eq_path {path : Path} (h : path.IsModule) {tree : FileTree} {place : Location}
    (hr : tree.resolve path = .ok place) : path = place.path :=
  h.normal.symm.trans (FileTree.normalize_of_resolve h.absolute hr).2

/-- What is shown for a module is the last segment of the path that was captured for it, whatever
the directory is that it is read from. -/
theorem getLast?_segments_of_isRelative {relative : Path}
    (h : Imports.IsRelative relative.text.toList) (directory : Path) :
    relative.segments.getLast? = some (directory.join relative).normalize.shownName := by
  obtain ⟨dots, inside, -, -, -, htext⟩ := h
  obtain ⟨front, hfront⟩ := suffix_text_join directory relative
  have hslash : '/' ∉ ".js".toList := by decide
  obtain ⟨before, last, hsplit⟩ := splitOn_append_of_not_mem inside hslash
  have hsegments (path : Path) (beginning : List Char)
      (hp : path.text.toList = beginning ++ '/' :: (inside ++ ".js".toList)) :
      path.segments = (beginning.splitOn '/' ++ before).map String.ofList ++
        [String.ofList (last ++ ".js".toList)] := by
    rw [segments, hp, List.splitOn_append_cons_self, hsplit, ← List.append_assoc, List.map_append]
    rfl
  have hjoined := hsegments (directory.join relative) (front ++ dots)
    (by rw [← hfront, htext, List.append_assoc])
  have hname : IsName (String.ofList (last ++ ".js".toList)) :=
    .of_ending (by simp) (slash_not_mem_segment (by rw [hjoined]; exact List.mem_concat_self))
  have hshown := getLast?_resolved hjoined hname
  rw [hsegments relative dots htext, List.getLast?_concat, shownName, fileName?,
    components_normalize, hshown]
  rfl

end Path

/-- An alias in a file with an absolute name stands for the path of a module. -/
theorem Imports.isModule_of_get? {lookahead : Nat} {buffer : Buffer}
    (ha : ∀ file, buffer.file = some file → file.isAbsolute = true) {word : String} {path : Path}
    (h : (ofBuffer lookahead buffer).get? word = some path) : path.IsModule := by
  obtain ⟨file, relative, hf, hc, rfl⟩ := exists_captured_of_get? h
  obtain ⟨dots, inside, -, -, -, htext⟩ := isRelative_of_captured? hc
  have hending : ".js".toList <:+ relative.text.toList := ⟨dots ++ '/' :: inside, by simp [htext]⟩
  exact Path.isModule_normalize
    (Path.isAbsolute_join (isAbsolute_directoryOf (ha file hf)) relative)
    (hending.trans (Path.suffix_text_join _ relative))

end EsmCompletion
