import EsmCompletion.Configuration
import EsmCompletion.Proofs.Path.BaseName

/-! # Which files are sources

A file is a source if its base name is something, a dot and letters without a dot, and the dot with
these letters is a configured extension. So directories do not matter, and an extension that does
not start with a dot, or holds a second one, is no file's. -/

namespace EsmCompletion.Configuration

open EsmCompletion.Path (HasBaseName)

variable {configuration : Configuration} {path : Path}

theorem isSource_iff_extension :
    configuration.isSource path = true ↔
      ∃ suffix, path.extension? = some suffix ∧ "." ++ suffix ∈ configuration.sourceExtensions := by
  unfold isSource
  cases path.extension? <;> simp

theorem isSource_iff :
    configuration.isSource path = true ↔
      ∃ name, path.HasBaseName name ∧
        ∃ stem suffix : String, stem ≠ "" ∧ '.' ∉ suffix.toList ∧ name = stem ++ "." ++ suffix ∧
          "." ++ suffix ∈ configuration.sourceExtensions := by
  rw [isSource_iff_extension]
  constructor
  · rintro ⟨suffix, he, hm⟩
    obtain ⟨name, hname, hsuffix⟩ := Option.bind_eq_some_iff.1 he
    obtain ⟨stem, hstem, hdot, hwritten⟩ := Path.extensionOf?_eq_some_iff.1 hsuffix
    exact ⟨name, Path.fileName?_eq_some_iff.1 hname, stem, suffix, hstem, hdot, hwritten, hm⟩
  · rintro ⟨name, hname, stem, suffix, hstem, hdot, hwritten, hm⟩
    have hsuffix := Path.extensionOf?_eq_some_iff.2 ⟨stem, hstem, hdot, hwritten⟩
    exact ⟨suffix, Option.bind_eq_some_iff.2 ⟨name, Path.fileName?_eq_some_iff.2 hname, hsuffix⟩, hm⟩

/-- Only the base name of a path is looked at. -/
theorem isSource_of_fileName? {other : Path} (h : other.fileName? = path.fileName?) :
    configuration.isSource other = configuration.isSource path := by
  rw [isSource, isSource, Path.extension?, Path.extension?, h]

/-- An extension that does not start with a dot, or that holds a second one, is no file's. -/
theorem ne_extension {extension suffix : String}
    (h : extension.toList.head? ≠ some '.' ∨ 1 < extension.toList.count '.')
    (hs : path.extension? = some suffix) : "." ++ suffix ≠ extension := by
  rintro rfl
  obtain ⟨name, -, hsuffix⟩ := Option.bind_eq_some_iff.1 hs
  obtain ⟨-, -, hdot, -⟩ := Path.extensionOf?_eq_some_iff.1 hsuffix
  have hcount : ("." ++ suffix).toList.count '.' = 1 := by
    simp [List.count_eq_zero.2 hdot]
  rcases h with hhead | htwice
  · simp at hhead
  · omega

/-- Sources are told by the ending of their base names. A file is one if and only if the last segment
of its path that counts is something, a dot and letters without a dot, where the dot and the letters
are a configured extension. So it does not matter in which directory the file is; an extension without
a dot at its start, or with a second dot, may as well not be configured; and without other extensions
than the default ones the sources are the files whose base names end in `.js` or `.mjs` behind at least
one character. -/
theorem sources_told_by_ending (configuration : Configuration) (path : Path) :
    (configuration.isSource path = true ↔
      ∃ name, path.HasBaseName name ∧
        ∃ stem suffix : String, stem ≠ "" ∧ '.' ∉ suffix.toList ∧ name = stem ++ "." ++ suffix ∧
          "." ++ suffix ∈ configuration.sourceExtensions) ∧
      ((∃ name, path.HasBaseName name) →
        (∀ directory : String,
          configuration.isSource ⟨directory ++ "/" ++ path.text⟩ = configuration.isSource path) ∧
        ∀ directory : Path,
          configuration.isSource (directory.join path) = configuration.isSource path) ∧
      (∀ before extension after, configuration.sourceExtensions = before ++ extension :: after →
        extension.toList.head? ≠ some '.' ∨ 1 < extension.toList.count '.' →
        configuration.isSource path =
          { configuration with sourceExtensions := before ++ after }.isSource path) ∧
      (configuration.sourceExtensions = ({} : Configuration).sourceExtensions →
        (configuration.isSource path = true ↔
          ∃ name, path.HasBaseName name ∧
            ∃ stem : String, stem ≠ "" ∧ (name = stem ++ ".js" ∨ name = stem ++ ".mjs"))) := by
  refine ⟨isSource_iff, ?_, ?_, ?_⟩
  · rintro ⟨name, hname⟩
    exact ⟨fun directory => isSource_of_fileName? (hname.fileName?_behind directory),
      fun directory => isSource_of_fileName? (hname.fileName?_join directory)⟩
  · intro before extension after hall hunfit
    rw [Bool.eq_iff_iff, isSource_iff_extension, isSource_iff_extension, hall]
    refine exists_congr fun suffix => and_congr_right fun hs => ?_
    have hne := ne_extension hunfit hs
    simp [hne]
  · intro hdefault
    rw [isSource_iff, hdefault]
    refine exists_congr fun name => and_congr_right fun _ => ?_
    constructor
    · rintro ⟨stem, suffix, hstem, -, rfl, hm⟩
      refine ⟨stem, hstem, ?_⟩
      rcases List.mem_cons.1 hm with he | hm
      · exact .inl (by rw [String.append_assoc, he])
      · exact .inr (by rw [String.append_assoc, List.mem_singleton.1 hm])
    · rintro ⟨stem, hstem, rfl | rfl⟩
      · exact ⟨stem, "js", hstem, by decide, by rw [String.append_assoc]; rfl, by decide⟩
      · exact ⟨stem, "mjs", hstem, by decide, by rw [String.append_assoc]; rfl, by decide⟩

/-- A path with a slash and a single dot at its end, where one of two extensions lacks its dot. -/
theorem sources_behind_slash :
    let path : Path := ⟨"a/..js/./"⟩
    let configuration : Configuration := { sourceExtensions := ["js", ".js"] }
    path.HasBaseName "..js" ∧ configuration.isSource path = true ∧
      configuration.isSource ⟨"/x/.." ++ "/" ++ path.text⟩ = true ∧
      ({ sourceExtensions := [".js"] } : Configuration).isSource path = true ∧
      ∃ name, path.HasBaseName name ∧
        ∃ stem : String, stem ≠ "" ∧ (name = stem ++ ".js" ∨ name = stem ++ ".mjs") := by
  intro path configuration
  have hname : path.HasBaseName "..js" := Path.fileName?_eq_some_iff.1 (by decide +kernel)
  have hsource : configuration.isSource path = true := by decide +kernel
  obtain ⟨-, hbehind, hunfit, -⟩ := sources_told_by_ending configuration path
  obtain ⟨-, -, -, hdefault⟩ := sources_told_by_ending {} path
  refine ⟨hname, hsource, ?_, ?_, ?_⟩
  · rw [(hbehind ⟨_, hname⟩).1 "/x/..", hsource]
  · rw [← hsource, hunfit [] "js" [".js"] rfl (.inl (by decide))]
    rfl
  · exact (hdefault rfl).1 (by decide +kernel)

example : isSource {} ⟨"/m/.js"⟩ = false := by decide +kernel

end EsmCompletion.Configuration
