import OmniMesh.Cli.Lemmas.Machine
import OmniMesh.Lib.Run

/-!
# The identity that the commands see

`Kept` follows the key file over all commands, as long as they agree on its place.
-/

namespace OmniMesh.Cli
open OmniMesh.Core OmniMesh.Crypto OmniMesh.Identity

variable {F : Formats} {P : Primitives} {S : KeyScheme} {dirs : Fs.Directories} {configArg k : Fs.Path}
  {home : Option String} {files : Fs.Files} {stored : List Keypair} {config : Config} {m m' : Machine}
  {act : MachineAct} {acts : List MachineAct}

/-- The file holds the last of the keypairs that were stored. -/
def KeyFile (P : Primitives) (k : Fs.Path) (files : Fs.Files) (stored : List Keypair) : Prop :=
  match stored.getLast? with
  | none => files k = none
  | some keypair => ∃ contents, files k = some contents ∧ Stores P keypair "" contents

theorem KeyFile.congr {files' : Fs.Files} (h : KeyFile P k files stored) (hk : files' k = files k) :
    KeyFile P k files' stored := by
  unfold KeyFile at *
  rw [hk]
  exact h

theorem KeyFile.stored_eq_nil (h : KeyFile P k files stored) (hk : files k = none) : stored = [] := by
  unfold KeyFile at h
  split at h
  · rename_i hlast
    exact List.getLast?_eq_none_iff.mp hlast
  · obtain ⟨contents, hfile, -⟩ := h
    cases hk.symm.trans hfile

theorem KeyFile.mem_of_load {keypair : Keypair} (h : KeyFile P k files stored)
    (hload : load P k files "" = .ok keypair) : keypair ∈ stored := by
  unfold KeyFile at h
  split at h
  · have habsent : ∃ e, load P k files "" = .error e := load_absent h
    obtain ⟨e, he⟩ := habsent
    cases he.symm.trans hload
  · rename_i last hlast
    obtain ⟨contents, hfile, hstores⟩ := h
    cases (load_stores hstores hfile).1.symm.trans hload
    exact List.mem_of_getLast? hlast

/-- What a command at this stage relies on. -/
def StageKept (F : Formats) (P : Primitives) (k : Fs.Path) (files : Fs.Files) (stored : List Keypair)
    (config : Config) : Stage → Prop
  | .storing _ call => call.passphrase = "" ∧ Stores P call.keypair "" call.json ∧
      ∀ n, call.stage = .writing n → files (tmpPath k) = some (call.json.take n)
  | .stored _ keypair => keypair ∈ stored
  | .writing text _ => ∃ t, F.toToml config = .ok t ∧ text = t.toUTF8.data.toList
  | _ => True

/-- The path is of this key file, and it is one that a configuration keeps. -/
def LeadsTo (F : Formats) (dirs : Fs.Directories) (k path : Fs.Path) : Prop := path.locate dirs = k ∧ F.plain path

namespace Machine

structure Kept (F : Formats) (P : Primitives) (S : KeyScheme) (dirs : Fs.Directories) (configArg k : Fs.Path)
    (home : Option String) (m : Machine) : Prop where
  resolves : LeadsTo F dirs k ((fileKeyPath F (m.files.seen dirs) configArg).getD (defaultKeyPath home))
  process : ∀ config stage, m.process = some ⟨config, stage⟩ →
    LeadsTo F dirs k config.identity.keyPath ∧ StageKept F P k m.files m.stored config stage
  key : KeyFile P k m.files m.stored
  named : ∀ p ∈ m.named, ∃ keypair ∈ m.stored, p = S.toPeerId keypair.seed

theorem start_kept
    (hresolves : LeadsTo F dirs k ((fileKeyPath F (files.seen dirs) configArg).getD (defaultKeyPath home)))
    (hk : files k = none) : Kept F P S dirs configArg k home (start files) where
  resolves := hresolves
  process _ _ hp := by cases hp
  key := hk
  named _ hp := absurd hp List.not_mem_nil

theorem Kept.loaded {env : Env} (h : Kept F P S dirs configArg k home m) (henv : env.home = home) :
    LeadsTo F dirs k (Config.loadOrDefault F env (m.files.seen dirs) configArg).identity.keyPath := by
  rw [keyPath_loadOrDefault, henv]
  exact h.resolves

/-- A step of a command that neither stores nor writes. -/
theorem Kept.keep {output : List Output} {process : Option Process} (h : Kept F P S dirs configArg k home m)
    (hprocess : ∀ config stage, process = some ⟨config, stage⟩ →
      LeadsTo F dirs k config.identity.keyPath ∧ StageKept F P k m.files m.stored config stage)
    (hnamed : ∀ p ∈ output.filterMap Output.identity, ∃ keypair ∈ m.stored, p = S.toPeerId keypair.seed) :
    Kept F P S dirs configArg k home { m with output, process } :=
  ⟨h.resolves, hprocess, h.key, hnamed⟩

theorem Kept.named_print {output : Output} (h : Kept F P S dirs configArg k home m)
    (houtput : ∀ p, output.identity = some p → ∃ keypair ∈ m.stored, p = S.toPeerId keypair.seed) :
    ∀ p ∈ (m.print output).named, ∃ keypair ∈ m.stored, p = S.toPeerId keypair.seed := by
  intro p hp
  rcases mem_named_print hp with hp | hp
  · exact h.named p hp
  · exact houtput p hp

/-- A step of a store before its rename. -/
theorem Kept.storing {first : Bool} {call call' : StoreCall} {files : Fs.Files} (happart : Apart dirs configArg k)
    (h : Kept F P S dirs configArg k home m) (hproc : m.process = some ⟨config, .storing first call⟩)
    (hmoves : StoreMoves (config.identity.keyPath.locate dirs) m.files call ⟨files, some call', none⟩) :
    Kept F P S dirs configArg k home { m with files, process := some ⟨config, .storing first call'⟩ } := by
  obtain ⟨hpath, hpass, hstores, -⟩ := h.process _ _ hproc
  rw [hpath.1] at hmoves
  have harg := hmoves.files_of_ne happart.arg happart.argTmp
  refine ⟨by rw [fileKeyPath_seen harg]; exact h.resolves, fun config' stage' hp => ?_, ?_, h.named⟩
  · cases hp
    refine ⟨hpath, ?_⟩
    cases hmoves with
    | directory => exact ⟨hpass, hstores, fun n hn => by cases hn⟩
    | write =>
        refine ⟨hpass, hstores, fun n hn => ?_⟩
        cases hn
        exact Fs.Files.write_self ..
  · cases hmoves with
    | directory => exact h.key
    | write => exact h.key.congr (Fs.Files.write_of_ne happart.tmp.symm)

/-- The rename of a store: the key file holds its keypair. -/
theorem Kept.rename {first : Bool} {call : StoreCall} {files : Fs.Files} (happart : Apart dirs configArg k)
    (h : Kept F P S dirs configArg k home m) (hproc : m.process = some ⟨config, .storing first call⟩)
    (hmoves : StoreMoves (config.identity.keyPath.locate dirs) m.files call
      ⟨files, none, some (call.keypair, call.passphrase)⟩) :
    Kept F P S dirs configArg k home { m with
      files
      process := some ⟨config, .stored first call.keypair⟩
      stored := m.stored ++ [call.keypair] } := by
  obtain ⟨hpath, hpass, hstores, htmp⟩ := h.process _ _ hproc
  rw [hpath.1] at hmoves
  have harg := hmoves.files_of_ne happart.arg happart.argTmp
  refine ⟨by rw [fileKeyPath_seen harg]; exact h.resolves, fun config' stage' hp => ?_, ?_, fun p hp => ?_⟩
  · cases hp
    exact ⟨hpath, List.mem_append_right _ (List.mem_singleton_self _)⟩
  · cases hmoves with
    | rename hstage hlen =>
        simp only [KeyFile, List.getLast?_concat]
        refine ⟨call.json, ?_, hstores⟩
        rw [Fs.Files.rename_new, htmp _ hstage, List.take_of_length_le hlen]
  · obtain ⟨keypair, hmem, rfl⟩ := h.named p hp
    exact ⟨keypair, List.mem_append_left _ hmem, rfl⟩

/-- A part of `config.toml` is written: where that is the file of the configuration, what is left of it
names the key path or none. -/
theorem Kept.write {text : Bytes} {written : Option ℕ} {n : ℕ} (happart : Apart dirs configArg k)
    (hsteady : configArg.locate dirs ≠ configToml.locate dirs ∨ LeadsTo F dirs k (defaultKeyPath home))
    (h : Kept F P S dirs configArg k home m) (hproc : m.process = some ⟨config, .writing text written⟩) :
    Kept F P S dirs configArg k home { m with
      files := m.files.write (configToml.locate dirs) (text.take n)
      process := some ⟨config, .writing text (some n)⟩ } := by
  obtain ⟨hpath, t, htext, rfl⟩ := h.process _ _ hproc
  refine ⟨?_, fun config' stage' hp => ?_, h.key.congr (Fs.Files.write_of_ne happart.toml.symm), h.named⟩
  · by_cases harg : configArg.locate dirs = configToml.locate dirs
    · have hfile : (m.files.write (configToml.locate dirs) (t.toUTF8.data.toList.take n)).seen dirs configArg =
          some (t.toUTF8.data.toList.take n) := by
        rw [Fs.Files.seen, harg]
        exact Fs.Files.write_self ..
      rcases fileKeyPath_part htext hpath.2 hfile with hpart | hpart
      · rw [hpart]
        exact hsteady.resolve_left (not_not.mpr harg)
      · rw [hpart]
        exact hpath
    · rw [fileKeyPath_seen (Fs.Files.write_of_ne harg)]
      exact h.resolves
  · cases hp
    exact ⟨hpath, t, htext, rfl⟩

theorem Kept.step (happart : Apart dirs configArg k)
    (hsteady : configArg.locate dirs ≠ configToml.locate dirs ∨ LeadsTo F dirs k (defaultKeyPath home))
    (henv : ∀ env, act.env = some env → env.home = home) (h : Kept F P S dirs configArg k home m)
    (hs : m.step F P S dirs configArg act = some m') : Kept F P S dirs configArg k home m' := by
  cases step_moves hs with
  | @init env draw hidle =>
      refine h.keep (fun config stage hp => ?_) h.named
      cases hp
      exact ⟨h.loaded (henv env rfl), trivial⟩
  | @ask env command output hidle hdrawn hbeside hload =>
      refine h.keep (fun config stage hp => h.process config stage hp) (h.named_print fun p hp => ?_)
      obtain ⟨keypair, rfl, hload⟩ := hload p hp
      have hkey : load P k m.files "" = .ok keypair := (h.loaded (henv env rfl)).1 ▸ hload
      exact ⟨keypair, h.key.mem_of_load hkey, rfl⟩
  | @generate env draw json stage hidle hstores hstage =>
      refine h.keep (fun config stage' hp => ?_) h.named
      cases hp
      exact ⟨h.loaded (henv env rfl), rfl, hstores, fun n hn => absurd hn (hstage n)⟩
  | @absent config draw json stage hproc hfile hstores hstage =>
      refine h.keep (fun config' stage' hp => ?_) h.named
      cases hp
      exact ⟨(h.process _ _ hproc).1, rfl, hstores, fun n hn => absurd hn (hstage n)⟩
  | @directory config draw hproc =>
      refine h.keep (fun config' stage' hp => ?_) h.named
      cases hp
      exact ⟨(h.process _ _ hproc).1, trivial⟩
  | found hproc =>
      exact h.keep (fun config' stage' hp => by cases hp) (h.named_print fun p hp => by cases hp)
  | storing hproc hmoves => exact h.storing happart hproc hmoves
  | stored hproc hmoves => exact h.rename happart hproc hmoves
  | @initialized config keypair process hproc hprocess =>
      refine h.keep (fun config' stage' hp => ?_) (h.named_print fun p hp => ?_)
      · obtain ⟨text, htext, hproc'⟩ := hprocess _ hp
        cases hproc'
        exact ⟨(h.process _ _ hproc).1, text, htext, rfl⟩
      · cases hp
        exact ⟨keypair, (h.process _ _ hproc).2, rfl⟩
  | @generated config keypair hproc =>
      refine h.keep (fun config' stage' hp => by cases hp) (h.named_print fun p hp => ?_)
      cases hp
      exact ⟨keypair, (h.process _ _ hproc).2, rfl⟩
  | write hdrawn hproc => exact h.write happart hsteady hproc
  | finish hproc hlen =>
      exact h.keep (fun config' stage' hp => by cases hp) (h.named_print fun p hp => by cases hp)
  | stop => exact h.keep (fun config' stage' hp => by cases hp) h.named

/-! ## Without `identity generate` -/

/-- Only `init` stores, and it does so once. -/
structure Once (m : Machine) : Prop where
  length : m.stored.length ≤ 1
  storing : ∀ config first call, m.process = some ⟨config, .storing first call⟩ → m.stored = []

theorem start_once : Once (start files) := ⟨Nat.zero_le _, fun _ _ _ hp => by cases hp⟩

theorem Once.step (hact : act.isGenerate = false) (h : Once m) (hkept : Kept F P S dirs configArg k home m)
    (hs : m.step F P S dirs configArg act = some m') : Once m' := by
  cases step_moves hs with
  | generate => cases hact
  | @absent config draw json stage hproc hfile =>
      rw [(hkept.process _ _ hproc).1.1] at hfile
      exact ⟨h.length, fun _ _ _ _ => hkept.key.stored_eq_nil hfile⟩
  | storing hproc => exact ⟨h.length, fun _ _ _ _ => h.storing _ _ _ hproc⟩
  | stored hproc =>
      refine ⟨?_, fun _ _ _ hp => by cases hp⟩
      rw [h.storing _ _ _ hproc]
      exact le_rfl
  | ask => exact ⟨h.length, fun _ _ _ hp => h.storing _ _ _ hp⟩
  | initialized hproc hprocess =>
      refine ⟨h.length, fun _ _ _ hp => ?_⟩
      obtain ⟨text, -, hproc'⟩ := hprocess _ hp
      cases hproc'
  | _ => exact ⟨h.length, fun _ _ _ hp => by cases hp⟩

theorem run_once (happart : Apart dirs configArg k)
    (hsteady : configArg.locate dirs ≠ configToml.locate dirs ∨ LeadsTo F dirs k (defaultKeyPath home))
    (hresolves : LeadsTo F dirs k ((fileKeyPath F (files.seen dirs) configArg).getD (defaultKeyPath home)))
    (hk : files k = none)
    (hacts : ∀ act ∈ acts, act.isGenerate = false ∧ ∀ env, act.env = some env → env.home = home)
    (hr : Lts.run (step F P S dirs configArg) (start files) acts = some m) :
    Kept F P S dirs configArg k home m ∧ Once m := by
  refine Lts.run_invariant_of_mem (I := fun m => Kept F P S dirs configArg k home m ∧ Once m) ?_
    ⟨start_kept hresolves hk, start_once⟩ hr
  rintro s act t hmem ⟨hkept, honce⟩ hs
  obtain ⟨hgenerate, henv⟩ := hacts act hmem
  exact ⟨hkept.step happart hsteady henv hs, honce.step hgenerate hkept hs⟩

theorem Once.named_eq {p q : PeerId} (h : Once m) (hkept : Kept F P S dirs configArg k home m) (hp : p ∈ m.named)
    (hq : q ∈ m.named) : p = q := by
  obtain ⟨first, hfirst, rfl⟩ := hkept.named p hp
  obtain ⟨second, hsecond, rfl⟩ := hkept.named q hq
  match hstored : m.stored, h.length with
  | [], _ =>
      rw [hstored] at hfirst
      cases hfirst
  | [keypair], _ =>
      rw [hstored] at hfirst hsecond
      rw [List.mem_singleton.mp hfirst, List.mem_singleton.mp hsecond]

/-! ## An `init` that loses its configuration -/

def drawOf (keypair : Keypair) : Draw := ⟨keypair, Disk.zeroSalt, Disk.zeroNonce, ""⟩

/-- An `init` up to the end of its store. -/
def initRun (env : Env) (path : Fs.Path) (keypair : Keypair) (size : ℕ) : List MachineAct :=
  [.start env (.init (drawOf keypair)), .createDirAll, .check] ++
    ((if path.parent.isSome then [.disk .createDirAll] else []) ++
      [.disk .create, .disk (.write size), .disk .rename])

theorem mem_initRun {env : Env} {path : Fs.Path} {keypair : Keypair} {size : ℕ}
    (h : act ∈ initRun env path keypair size) :
    act.isGenerate = false ∧ ∀ env', act.env = some env' → env' = env := by
  have hstart : ∀ env', some env = some env' → env' = env := fun env' h => (Option.some.inj h).symm
  have hnone : ∀ env', (none : Option Env) = some env' → env' = env := fun env' h => by cases h
  simp only [initRun, List.mem_append, List.mem_cons, List.not_mem_nil, or_false] at h
  rcases h with (rfl | rfl | rfl) | h | rfl | rfl | rfl
  · exact ⟨rfl, hstart⟩
  · exact ⟨rfl, hnone⟩
  · exact ⟨rfl, hnone⟩
  · split at h
    · rw [List.mem_singleton.mp h]
      exact ⟨rfl, hnone⟩
    · cases h
  · exact ⟨rfl, hnone⟩
  · exact ⟨rfl, hnone⟩
  · exact ⟨rfl, hnone⟩

theorem exists_initRun {env : Env} {path : Fs.Path} (hidle : m.process = none)
    (hconfig : Config.loadOrDefault F env (m.files.seen dirs) configArg = config)
    (hpath : config.identity.keyPath.locate dirs = path) (hfile : m.files path = none) (keypair : Keypair) :
    ∃ size m', Lts.run (step F P S dirs configArg) m (initRun env path keypair size) = some m' ∧
      m'.process = some ⟨config, .stored true keypair⟩ ∧ m'.output = m.output ∧
      ∀ p, p ≠ path → p ≠ tmpPath path → m'.files p = m.files p := by
  obtain ⟨record, hrecord⟩ :=
    exists_encryptedKey (P := P) keypair "" Disk.zeroSalt Disk.zeroNonce ""
  have hother : ∀ json p, p ≠ path → p ≠ tmpPath path →
      (((m.files.write (tmpPath path) []).write (tmpPath path) json).rename (tmpPath path) path) p =
        m.files p := by
    intro json p hp htmp
    rw [Fs.Files.rename, Function.update_of_ne hp, Function.update_of_ne htmp, Fs.Files.write_of_ne htmp,
      Fs.Files.write_of_ne htmp]
  have hseen : m.files.seen dirs config.identity.keyPath = none := by rw [Fs.Files.seen, hpath, hfile]
  refine ⟨(jsonBytes P record).length,
    ⟨((m.files.write (tmpPath path) []).write (tmpPath path) (jsonBytes P record)).rename (tmpPath path) path,
      some ⟨config, .stored true keypair⟩, m.output, m.stored ++ [keypair]⟩, ?_, rfl, rfl, hother _⟩
  cases hparent : path.parent.isSome with
  | true =>
      simp [initRun, Lts.run, step, hidle, hconfig, hpath, hseen, beginStore, Disk.step, drawOf, hrecord, hparent]
  | false =>
      simp [initRun, Lts.run, step, hidle, hconfig, hpath, hseen, beginStore, Disk.step, drawOf, hrecord, hparent]

theorem locate_defaultKeyPath_ne_tmp (h : tmpPath k ≠ k) : (defaultKeyPath home).locate dirs ≠ tmpPath k := by
  intro heq
  have hname := congrArg Fs.Path.fileName heq
  simp only [tmpPath, Fs.Path.withExtension] at h hname
  split at hname
  · rename_i hstem
    rw [hstem] at h
    exact h rfl
  · rename_i stem _
    have hlast := congrArg List.getLast? (Option.some.inj hname)
    rw [List.getLast?_append] at hlast
    cases hlast

theorem locate_defaultKeyPath_ne_toml : (defaultKeyPath home).locate dirs ≠ configToml.locate dirs := by
  intro heq
  have hname : "identity.key".toList = "config.toml".toList :=
    Option.some.inj (congrArg Fs.Path.fileName heq)
  revert hname
  decide

theorem exists_announce (F : Formats) (P : Primitives) (S : KeyScheme) (dirs : Fs.Directories) (configArg : Fs.Path)
    {keypair : Keypair} (hproc : m.process = some ⟨config, .stored true keypair⟩) :
    ∃ m', m.step F P S dirs configArg .announce = some m' ∧ m'.output = m.output ++
      [.initialized (S.toPeerId keypair.seed) config.identity.keyPath config.node.dataDir] := by
  simp only [step, hproc]
  cases F.toToml config with
  | error e => exact ⟨_, rfl, rfl⟩
  | ok text => exact ⟨_, rfl, rfl⟩

/-- The first `init` is stopped before it has written the file that it has emptied, and the next one no
longer finds the path of the key. -/
theorem exists_two_identities {env : Env} {text : String} (happart : Apart dirs configArg k)
    (harg : configArg.locate dirs = configToml.locate dirs)
    (hconfig : Config.loadOrDefault F env (files.seen dirs) configArg = config)
    (hpath : config.identity.keyPath.locate dirs = k) (htext : F.toToml config = .ok text) (hk : files k = none)
    (hdefault : files ((defaultKeyPath env.home).locate dirs) = none)
    (hne : k ≠ (defaultKeyPath env.home).locate dirs) (first second : Keypair) :
    ∃ acts m, Lts.run (step F P S dirs configArg) (start files) acts = some m ∧
      (∀ act ∈ acts, act.isGenerate = false ∧ ∀ env', act.env = some env' → env' = env) ∧
      S.toPeerId first.seed ∈ m.named ∧ S.toPeerId second.seed ∈ m.named := by
  obtain ⟨size, m₁, hrun₁, hproc₁, hout₁, hfiles₁⟩ :=
    exists_initRun (P := P) (S := S) (m := start files) rfl hconfig hpath hk first
  let m₂ : Machine :=
    ⟨m₁.files.write (configToml.locate dirs) [], none,
      [.initialized (S.toPeerId first.seed) config.identity.keyPath config.node.dataDir], m₁.stored⟩
  have hrun₂ : Lts.run (step F P S dirs configArg) m₁ [.announce, .truncate, .stop] = some m₂ := by
    simp only [Lts.run, step, hproc₁, htext, print, hout₁, Option.bind_some]
    rfl
  have hempty : m₂.files.seen dirs configArg = some [] := by
    rw [Fs.Files.seen, harg]
    exact Fs.Files.write_self ..
  have hpath₂ : (Config.loadOrDefault F env (m₂.files.seen dirs) configArg).identity.keyPath =
      defaultKeyPath env.home := by
    rw [keyPath_loadOrDefault, fileKeyPath_empty hempty]
    rfl
  have hfile₂ : m₂.files ((defaultKeyPath env.home).locate dirs) = none := by
    rw [show m₂.files = m₁.files.write (configToml.locate dirs) [] from rfl,
      Fs.Files.write_of_ne locate_defaultKeyPath_ne_toml,
      hfiles₁ _ hne.symm (locate_defaultKeyPath_ne_tmp happart.tmp)]
    exact hdefault
  obtain ⟨size', m₃, hrun₃, hproc₃, hout₃, -⟩ :=
    exists_initRun (P := P) (S := S) (m := m₂) rfl rfl (by rw [hpath₂]) hfile₂ second
  obtain ⟨m, hm, hout⟩ := exists_announce F P S dirs configArg hproc₃
  rw [hout₃] at hout
  refine ⟨initRun env k first size ++ ([.announce, .truncate, .stop] ++
    (initRun env ((defaultKeyPath env.home).locate dirs) second size' ++ [.announce])), m, ?_, ?_, ?_⟩
  · rw [Lts.run_append, hrun₁, Option.bind_some, Lts.run_append, hrun₂, Option.bind_some, Lts.run_append, hrun₃,
      Option.bind_some, Lts.run, hm]
    rfl
  · intro act hact
    simp only [List.mem_append] at hact
    rcases hact with hact | hact | hact | hact
    · exact mem_initRun hact
    · simp only [List.mem_cons, List.not_mem_nil, or_false] at hact
      rcases hact with rfl | rfl | rfl <;> exact ⟨rfl, fun _ h => by cases h⟩
    · exact mem_initRun hact
    · rw [List.mem_singleton.mp hact]
      exact ⟨rfl, fun _ h => by cases h⟩
  · rw [named, hout]
    exact ⟨List.mem_cons_self, List.mem_cons_of_mem _ List.mem_cons_self⟩

end Machine

end OmniMesh.Cli
