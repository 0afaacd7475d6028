import OmniMesh.Cli.Config
import OmniMesh.Identity.Lemmas.KeyStore

/-!
# Which configuration a command works with
-/

namespace OmniMesh.Cli
open OmniMesh.Core OmniMesh.Identity

variable {F : Formats} {env : Env} {files files' : Fs.Files} {path : Fs.Path} {text : String} {config : Config}

/-- The key path that the file names. -/
def fileKeyPath (F : Formats) (files : Fs.Files) (path : Fs.Path) : Option Fs.Path :=
  match readToString files path with
  | .error _ => none
  | .ok content =>
      match F.fromToml content with
      | .error _ => none
      | .ok document => document.keyPath

/-- A file that is missing or broken, and one that names no key path, leave the default. -/
theorem keyPath_loadOrDefault : (Config.loadOrDefault F env files path).identity.keyPath =
    (fileKeyPath F files path).getD (defaultKeyPath env.home) := by
  cases hfile : files path with
  | none =>
      simp only [Config.loadOrDefault, Config.load, fileKeyPath, readToString, hfile, Option.isSome_none,
        Bool.false_eq_true, if_false]
      rfl
  | some contents =>
      simp only [Config.loadOrDefault, Config.load, Config.fromFile, fileKeyPath, hfile, Option.isSome_some,
        if_true]
      cases readToString files path with
      | error e => rfl
      | ok content =>
          dsimp only
          cases F.fromToml content with
          | error e => rfl
          | ok document => rfl

theorem fileKeyPath_seen {dirs : Fs.Directories} (h : files' (path.locate dirs) = files (path.locate dirs)) :
    fileKeyPath F (files'.seen dirs) path = fileKeyPath F (files.seen dirs) path := by
  simp only [fileKeyPath, readToString, Fs.Files.seen, h]

/-- A document that was not written to its end names the key path of the whole one, or none. -/
theorem fileKeyPath_part {n : ℕ} (htext : F.toToml config = .ok text)
    (hplain : F.plain config.identity.keyPath)
    (hfile : files path = some (text.toUTF8.data.toList.take n)) :
    fileKeyPath F files path = none ∨ fileKeyPath F files path = some config.identity.keyPath := by
  unfold fileKeyPath
  split
  · exact .inl rfl
  · rename_i part hread
    split
    · exact .inl rfl
    · rename_i document hdoc
      have hpart := (readToString_ok hread).symm.trans hfile
      refine F.fromToml_part config text part document htext hplain ?_ hdoc
      rw [Option.some.inj hpart]
      exact List.take_prefix n _

theorem fileKeyPath_empty (hfile : files path = some []) : fileKeyPath F files path = none := by
  have hread : readToString files path = .ok "" := readToString_text hfile
  simp only [fileKeyPath, hread, F.fromToml_empty]
  rfl

/-- The whole document brings the configuration back, with the overrides. -/
theorem loadOrDefault_written (htext : F.toToml config = .ok text)
    (hfile : files path = some text.toUTF8.data.toList) :
    Config.loadOrDefault F env files path = config.applyEnvOverrides F env := by
  have hread : readToString files path = .ok text := readToString_text hfile
  simp only [Config.loadOrDefault, Config.load, Config.fromFile, hfile, hread, F.fromToml_toToml config text htext,
    Option.isSome_some, if_true]
  rfl

end OmniMesh.Cli
