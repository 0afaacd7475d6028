import OmniMesh.Cli.Lemmas.Concrete
import OmniMesh.Cli.Lemmas.Identity
import OmniMesh.Cli.Lemmas.Origin
import OmniMesh.Core.Lemmas.Concrete

/-!
# The identity of a node over its commands
-/

namespace OmniMesh.Cli
open OmniMesh.Core OmniMesh.Crypto OmniMesh.Identity

/-- From a configuration and no key yet, the commands agree on one identity exactly when the key stands at
the default place or the configuration is read from another file than the one that `init` rewrites. Else an
`init` that is stopped while it rewrites its configuration leaves a file that no longer names the path of
the key, and the next `init` makes a second identity. -/
theorem commands_keep_identity_iff (F : Formats) (P : Primitives) (S : KeyScheme) (dirs : Fs.Directories)
    (configArg : Fs.Path) (files : Fs.Files) (env : Env) {config : Config} {text : String} {first second : Keypair}
    (hconfig : Config.loadOrDefault F env (files.seen dirs) configArg = config) (htext : F.toToml config = .ok text)
    (hplain : F.plain config.identity.keyPath) (hplain' : F.plain (defaultKeyPath env.home))
    (happart : Apart dirs configArg (config.identity.keyPath.locate dirs))
    (hfile : files.seen dirs config.identity.keyPath = none)
    (hdefault : files.seen dirs (defaultKeyPath env.home) = none)
    (hkeys : S.toPeerId first.seed ≠ S.toPeerId second.seed) :
    Machine.OneIdentity F P S dirs configArg files env.home ↔
      configArg.locate dirs ≠ configToml.locate dirs ∨
        config.identity.keyPath.locate dirs = (defaultKeyPath env.home).locate dirs := by
  constructor
  · intro hone
    by_contra hlost
    obtain ⟨harg, hne⟩ := not_or.mp hlost
    obtain ⟨acts, m, hrun, hacts, hfirst, hsecond⟩ := Machine.exists_two_identities (P := P) happart
      (not_not.mp harg) hconfig rfl htext hfile hdefault hne first second
    have hhome : ∀ act ∈ acts, act.isGenerate = false ∧ ∀ env', act.env = some env' → env'.home = env.home :=
      fun act hact => ⟨(hacts act hact).1, fun env' henv => by rw [(hacts act hact).2 env' henv]⟩
    exact hkeys (hone acts m hrun hhome _ hfirst _ hsecond)
  · intro hsteady acts m hrun hacts p hp q hq
    have hresolves : (fileKeyPath F (files.seen dirs) configArg).getD (defaultKeyPath env.home) =
        config.identity.keyPath := by
      rw [← keyPath_loadOrDefault, hconfig]
    have hleads : LeadsTo F dirs (config.identity.keyPath.locate dirs)
        ((fileKeyPath F (files.seen dirs) configArg).getD (defaultKeyPath env.home)) := by
      rw [hresolves]
      exact ⟨rfl, hplain⟩
    obtain ⟨hkept, honce⟩ := Machine.run_once happart (hsteady.imp_right fun h => ⟨h.symm, hplain'⟩) hleads hfile
      hacts hrun
    exact honce.named_eq hkept hp hq

/-- The working directory. -/
def sampleDirs : Fs.Directories := fun dir => if dir = none ∨ dir = some "." then some "/work" else dir

/-- `--config ./config.toml` -/
def dotConfig : Fs.Path := ⟨some ".", some "config.toml".toList⟩

/-- The configuration file alone. -/
def sampleFiles : Fs.Files := fun path =>
  if path = ⟨some "/work", some "config.toml".toList⟩ then some "c".toUTF8.data.toList else none

theorem sample_config {files : Fs.Files} (h : files.seen sampleDirs dotConfig = some "c".toUTF8.data.toList) :
    Config.loadOrDefault (oneConfig sampleConfig) sampleEnv (files.seen sampleDirs) dotConfig = sampleConfig := by
  have htext : (oneConfig sampleConfig).toToml sampleConfig = .ok "c" := rfl
  exact loadOrDefault_written htext h

def keyOf (b : UInt8) : Keypair := ⟨sampleKey b⟩

theorem plainKeys_ne : plainKeys.toPeerId (keyOf 1).seed ≠ plainKeys.toPeerId (keyOf 2).seed := by decide

/-- The key of this configuration stands elsewhere, and its `init` can be stopped in the wrong moment: it
writes the very file that the argument names, under another path. -/
theorem commands_keep_identity_iff_sample :
    dotConfig ≠ configToml ∧
      ¬ Machine.OneIdentity (oneConfig sampleConfig) plainPrimitives plainKeys sampleDirs dotConfig sampleFiles
        (some "/home/alice") := by
  have happart : Apart sampleDirs dotConfig (sampleConfig.identity.keyPath.locate sampleDirs) :=
    ⟨by decide, by decide, by decide, by decide⟩
  have hiff := commands_keep_identity_iff (oneConfig sampleConfig) plainPrimitives plainKeys sampleDirs dotConfig
    sampleFiles sampleEnv (sample_config rfl) rfl trivial trivial happart rfl rfl plainKeys_ne
  refine ⟨by decide, fun hone => ?_⟩
  rcases hiff.mp hone with h | h
  · exact h rfl
  · revert h
    decide

/-- Whatever keys and configurations the files held before, the identity that `init` names when there is one
already is never the identity of the node: it is that of a keypair which `init` has made, and which no file
holds. -/
theorem init_misnames_existing {F : Formats} {P : Primitives} {S : KeyScheme} {dirs : Fs.Directories}
    {configArg : Fs.Path} {files : Fs.Files} {acts : List MachineAct} {m : Machine} (hP : P.Strict)
    (hF : F.Foreign P) (hrun : Lts.run (Machine.step F P S dirs configArg) (.start files) acts = some m)
    (hdistinct : ((acts.filterMap MachineAct.drawn).map fun kp => S.toPeerId kp.seed).Nodup)
    (hnew : ∀ drawn ∈ acts.filterMap MachineAct.drawn, ∀ path old, load P path files "" = .ok old →
      S.toPeerId old.seed ≠ S.toPeerId drawn.seed) {p : PeerId}
    (hp : p ∈ m.output.filterMap Output.besideExisting) :
    (∃ drawn ∈ acts.filterMap MachineAct.drawn, p = S.toPeerId drawn.seed) ∧ p ∉ m.named ∧
      ∀ path held, load P path m.files "" = .ok held → p ≠ S.toPeerId held.seed := by
  obtain ⟨used, htraced⟩ := Machine.run_traced hP hF hrun
  obtain ⟨hdrawn, hunused⟩ := htraced.spent.not_used hdistinct hp
  obtain ⟨drawn, hmem, rfl⟩ := List.mem_map.mp hdrawn
  have hother : ∀ kp, kp ∈ used ∨ Holds P files kp → S.toPeerId drawn.seed ≠ S.toPeerId kp.seed := by
    rintro kp (hkp | ⟨path, hload⟩) heq
    · exact hunused (heq ▸ List.mem_map_of_mem hkp)
    · exact hnew drawn hmem path kp hload heq.symm
  refine ⟨⟨drawn, hmem, rfl⟩, fun hnamed => ?_, fun path held hload => hother held (htraced.of_load hP hF hload)⟩
  obtain ⟨kp, heq, hkp⟩ := htraced.named _ hnamed
  exact hother kp hkp heq

theorem sample_foreign : (oneConfig sampleConfig).Foreign plainPrimitives := by
  intro config text part htext hpart
  have hc : text = "c" := by
    simp only [oneConfig] at htext
    split at htext
    · cases htext
      rfl
    · cases htext
  subst hc
  have hchars : part.toList <+: ['c'] := toList_prefix_of_take (List.prefix_iff_eq_take.mp hpart)
  rcases List.prefix_cons_iff.mp hchars with hnil | ⟨rest, hrest, hprefix⟩
  · rw [String.toList_eq_nil_iff.mp hnil]
    exact ⟨_, rfl⟩
  · rw [List.prefix_nil.mp hprefix] at hrest
    rw [show part = "c" from String.toList_inj.mp hrest]
    exact ⟨_, rfl⟩

/-- The record of the first key. -/
def heldRecord : EncryptedKey :=
  ⟨1, Disk.zeroNonce, (keyOf 1).seed.toList ++ (plainKey "").toList.take 16, Disk.zeroSalt, ""⟩

theorem stores_heldRecord : Stores plainPrimitives (keyOf 1) "" (jsonBytes plainPrimitives heldRecord) :=
  ⟨Disk.zeroSalt, Disk.zeroNonce, "", heldRecord, by decide, rfl, rfl⟩

/-- A node that has its key, at a path of its own. -/
def heldFiles : Fs.Files := fun path =>
  if path = sampleConfig.identity.keyPath then some (jsonBytes plainPrimitives heldRecord) else sampleFiles path

theorem load_heldFiles {path : Fs.Path} {keypair : Keypair}
    (h : load plainPrimitives path heldFiles "" = .ok keypair) : keypair = keyOf 1 := by
  by_cases hpath : path = sampleConfig.identity.keyPath
  · have hfile : heldFiles path = some (jsonBytes plainPrimitives heldRecord) := if_pos hpath
    cases (load_stores stores_heldRecord hfile).1.symm.trans h
    rfl
  · rcases load_cases plainPrimitives path heldFiles "" with ⟨e, he⟩ | ⟨text, record, hfile, hrecord, -⟩
    · cases he.symm.trans h
    · have hsample : heldFiles path = sampleFiles path := if_neg hpath
      obtain ⟨-, hc⟩ := Option.ite_none_right_eq_some.mp (hsample.symm.trans hfile)
      obtain ⟨e, he⟩ := sample_foreign sampleConfig "c" text rfl (Option.some.inj hc ▸ List.prefix_refl _)
      cases he.symm.trans hrecord

/-- The user forgets about the key, runs `init` again and then looks at the identity. -/
def secondInit : List MachineAct :=
  [.start sampleEnv (.init (Machine.drawOf (keyOf 2))), .createDirAll, .check, .start sampleEnv .identityShow]

theorem init_misnames_existing_second :
    ∃ m, Lts.run (Machine.step (oneConfig sampleConfig) plainPrimitives plainKeys sampleDirs dotConfig)
        (.start heldFiles) secondInit = some m ∧
      m.output.filterMap Output.besideExisting = [plainKeys.toPeerId (keyOf 2).seed] ∧
      m.named = [plainKeys.toPeerId (keyOf 1).seed] ∧ plainKeys.toPeerId (keyOf 2).seed ∉ m.named := by
  have hconfig : Config.loadOrDefault (oneConfig sampleConfig) sampleEnv (heldFiles.seen sampleDirs) dotConfig =
      sampleConfig := sample_config rfl
  have hheld : load plainPrimitives sampleConfig.identity.keyPath (heldFiles.seen sampleDirs) "" = .ok (keyOf 1) :=
    (load_stores stores_heldRecord rfl).1
  have hrun : ∃ m, Lts.run (Machine.step (oneConfig sampleConfig) plainPrimitives plainKeys sampleDirs dotConfig)
      (.start heldFiles) secondInit = some m ∧
      m.output.filterMap Output.besideExisting = [plainKeys.toPeerId (keyOf 2).seed] ∧
      m.named = [plainKeys.toPeerId (keyOf 1).seed] := by
    have hfound : (heldFiles.seen sampleDirs sampleConfig.identity.keyPath).isSome = true := rfl
    simp only [secondInit, Lts.run, Machine.step, Machine.start, hconfig, hfound, Machine.print, Machine.withIdentity,
      hheld, if_true, Option.bind_some]
    exact ⟨_, rfl, rfl, rfl⟩
  obtain ⟨m, hm, hbeside, hnamed⟩ := hrun
  have hnew : ∀ drawn ∈ secondInit.filterMap MachineAct.drawn, ∀ path old,
      load plainPrimitives path heldFiles "" = .ok old →
      plainKeys.toPeerId old.seed ≠ plainKeys.toPeerId drawn.seed := by
    intro drawn hdrawn path old hload
    rw [load_heldFiles hload, List.mem_singleton.mp hdrawn]
    exact plainKeys_ne
  refine ⟨m, hm, hbeside, hnamed, ?_⟩
  have hnext := init_misnames_existing (p := plainKeys.toPeerId (keyOf 2).seed) plainPrimitives_strict
    sample_foreign hm (by decide) hnew (by rw [hbeside]; exact List.mem_singleton_self _)
  exact hnext.2.1

end OmniMesh.Cli
