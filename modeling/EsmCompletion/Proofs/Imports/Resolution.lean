import EsmCompletion.Proofs.FileTree.NormalForm
import EsmCompletion.Proofs.Imports.Aliases

/-! # Aliases lead to the files that are meant

Imports are resolved on their text, without a look at the files. Where the path as it was written,
behind the directory of the buffer's file, leads to a file, the path that the alias stands for leads
to the same one, because the directory of an absolute path is absolute. -/

namespace EsmCompletion

namespace Path

theorem isAbsolute_ofComponents_root (rest : List Component) :
    (ofComponents (.root :: rest)).isAbsolute = true :=
  isAbsolute_slash_append _

/-- What an absolute path is read in is absolute. -/
theorem isAbsolute_of_parent? {path parent : Path} (ha : path.isAbsolute = true)
    (h : path.parent? = some parent) : parent.isAbsolute = true := by
  obtain ⟨inner, hc⟩ := List.head?_eq_some_iff.1 (isAbsolute_iff.1 ha)
  rcases List.eq_nil_or_concat inner with rfl | ⟨before, last, rfl⟩
  · simp [parent?, hc] at h
  · have hreverse : path.components.reverse = last :: (.root :: before).reverse := by
      simp [hc]
    unfold parent? at h
    rw [hreverse] at h
    split at h
    · cases h
    · cases h
    · rename_i he
      obtain rfl := (List.cons.inj he).2
      rw [List.reverse_reverse] at h
      obtain rfl := Option.some.inj h
      exact isAbsolute_ofComponents_root before

end Path

theorem FileTree.find_of_resolve {tree : FileTree} {path other : Path}
    (h : tree.resolve other = tree.resolve path) : tree.find other = tree.find path := by
  unfold find
  rw [h]

namespace Imports

theorem isAbsolute_directoryOf {file : Path} (h : file.isAbsolute = true) :
    (directoryOf file).isAbsolute = true := by
  unfold directoryOf
  cases hp : file.parent? with
  | none => rfl
  | some parent => exact Path.isAbsolute_of_parent? h hp

/-- Reading paths on their text leads where a walk leads. The normal form of an absolute path leads
to the file or directory that the path leads to; and an alias in a file with an absolute name leads
to what its captured path leads to, read from the directory of that file. -/
theorem lexical_resolution_leads_alike (tree : FileTree) :
    (∀ path place, path.isAbsolute = true → tree.resolve path = .ok place →
      tree.resolve path.normalize = .ok place ∧ tree.find path.normalize = tree.find path) ∧
    ∀ lookahead buffer file, buffer.file = some file → file.isAbsolute = true →
      ∀ word path, (ofBuffer lookahead buffer).get? word = some path →
        ∃ relative, captured? lookahead buffer word = some relative ∧
          ∀ place, tree.resolve ((directoryOf file).join relative) = .ok place →
            tree.resolve path = .ok place ∧
              tree.find path = tree.find ((directoryOf file).join relative) := by
  have hnormal : ∀ path place, path.isAbsolute = true → tree.resolve path = .ok place →
      tree.resolve path.normalize = .ok place ∧ tree.find path.normalize = tree.find path := by
    intro path place ha hr
    have hsame := FileTree.resolve_normalize ha hr
    exact ⟨hsame, FileTree.find_of_resolve (hsame.trans hr.symm)⟩
  refine ⟨hnormal, fun lookahead buffer file hf ha word path hg => ?_⟩
  rw [get?_ofBuffer hf] at hg
  obtain ⟨relative, hc, rfl⟩ := Option.map_eq_some_iff.1 hg
  exact ⟨relative, hc, fun place => hnormal _ place (Path.isAbsolute_join
    (isAbsolute_directoryOf ha) relative)⟩

/-- An import that climbs out of the directory of its file and comes back. -/
theorem climbing_import_leads_alike :
    let tree := FileTree.oneModule "export let a = 1;" ⟨5, 0⟩
    let buffer : Buffer := ⟨"import * as A from '../m/./a.js'", some ⟨"/m//main.js"⟩⟩
    tree.resolve ⟨"/m/../m/./a.js"⟩ = .ok ["a.js", "m"] ∧
      (ofBuffer 500 buffer).get? "A" = some ⟨"/m/a.js"⟩ ∧
      tree.resolve ⟨"/m/a.js"⟩ = .ok ["a.js", "m"] := by
  intro tree buffer
  have hplace : tree.resolve ⟨"/m/../m/./a.js"⟩ = .ok ["a.js", "m"] := rfl
  have halias : (ofBuffer 500 buffer).get? "A" = some ⟨"/m/a.js"⟩ := by decide +kernel
  obtain ⟨relative, hc, hleads⟩ :=
    (lexical_resolution_leads_alike tree).2 500 buffer ⟨"/m//main.js"⟩ rfl rfl "A" _ halias
  have hcaptured : captured? 500 buffer "A" = some ⟨"../m/./a.js"⟩ := by decide +kernel
  obtain rfl := Option.some.inj (hcaptured.symm.trans hc)
  exact ⟨hplace, halias, (hleads _ hplace).1⟩

end Imports

end EsmCompletion
