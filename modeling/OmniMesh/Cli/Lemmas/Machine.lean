import OmniMesh.Cli.Lemmas.Config
import OmniMesh.Cli.Machine

/-!
# What the commands do to the files
-/

namespace OmniMesh.Cli
open OmniMesh.Core OmniMesh.Crypto OmniMesh.Identity

variable {F : Formats} {P : Primitives} {S : KeyScheme} {dirs : Fs.Directories} {configArg : Fs.Path}

/-! ## What is printed -/

theorem exists_toHex_eq_short (p : PeerId) : ∃ rest, p.toHex = p.short ++ rest := by
  refine ⟨String.ofList (p.toHex.toList.drop 8), ?_⟩
  rw [PeerId.short, ← String.ofList_append, List.take_append_drop, String.ofList_toList]

/-- Every output that names an identity shows the beginning of its id and its virtual address. -/
theorem Output.lines_identity {output : Output} {p : PeerId} (h : output.identity = some p) :
    (∃ label rest, label ++ p.short ++ rest ∈ output.lines) ∧
      ∃ label, label ++ (VirtualIp.fromPeerId p).toText ∈ output.lines := by
  obtain ⟨rest, hrest⟩ := exists_toHex_eq_short p
  cases output with
  | initialized =>
      cases h
      exact ⟨⟨"   PeerId:     ", rest, by simp [lines, hrest, toString, String.append_assoc]⟩,
        "   Virtual IP: ", by simp [lines, toString]⟩
  | shown =>
      cases h
      exact ⟨⟨"  PeerId:      ", rest, by simp [lines, hrest, toString, String.append_assoc]⟩,
        "  Virtual IP:  ", by simp [lines, toString]⟩
  | generated =>
      cases h
      exact ⟨⟨"   PeerId:     ", rest, by simp [lines, hrest, toString, String.append_assoc]⟩,
        "   Virtual IP: ", by simp [lines, toString]⟩
  | running =>
      cases h
      exact ⟨⟨"  PeerId:      ", "", by simp [lines, toString]⟩, "  Virtual IP:  ", by simp [lines, toString]⟩
  | _ => cases h

/-! ## A store -/

/-- `store` names its temporary file by the text of the key path; its place is next to that of the key. -/
theorem locate_tmpPath {path : Fs.Path} : (tmpPath path).locate dirs = tmpPath (path.locate dirs) :=
  Fs.Path.locate_withExtension

/-- What a step of a store can do. -/
inductive StoreMoves (path : Fs.Path) (files : Fs.Files) (call : StoreCall) : Disk → Prop
  | directory : StoreMoves path files call ⟨files, some { call with stage := .creating }, none⟩
  | write {n : ℕ} : StoreMoves path files call
      ⟨files.write (tmpPath path) (call.json.take n), some { call with stage := .writing n }, none⟩
  | rename {n : ℕ} : call.stage = .writing n → call.json.length ≤ n → StoreMoves path files call
      ⟨files.rename (tmpPath path) path, none, some (call.keypair, call.passphrase)⟩
  | stop : StoreMoves path files call ⟨files, none, none⟩

theorem storeMoves_of_step {path : Fs.Path} {files : Fs.Files} {call : StoreCall} {act : DiskAct} {d : Disk}
    (h : Disk.step P path ⟨files, some call, none⟩ act = some d) : StoreMoves path files call d := by
  obtain ⟨keypair, passphrase, json, stage⟩ := call
  cases act with
  | store => cases h
  | stop =>
      cases h
      exact .stop
  | createDirAll =>
      cases stage with
      | creatingDir =>
          cases h
          exact .directory
      | _ => cases h
  | create =>
      cases stage with
      | creating =>
          cases h
          exact .write (n := 0)
      | _ => cases h
  | write n =>
      cases stage with
      | writing written =>
          obtain ⟨-, h⟩ := Option.ite_none_right_eq_some.mp h
          cases h
          exact .write
      | _ => cases h
  | rename =>
      cases stage with
      | writing written =>
          obtain ⟨hlen, h⟩ := Option.ite_none_right_eq_some.mp h
          cases h
          exact .rename rfl hlen
      | _ => cases h

theorem StoreMoves.files_of_ne {path p : Fs.Path} {files : Fs.Files} {call : StoreCall} {d : Disk}
    (h : StoreMoves path files call d) (hpath : p ≠ path) (htmp : p ≠ tmpPath path) : d.files p = files p := by
  cases h with
  | directory => rfl
  | write => exact Fs.Files.write_of_ne htmp
  | rename =>
      simp only [Fs.Files.rename]
      rw [Function.update_of_ne hpath, Function.update_of_ne htmp]
  | stop => rfl

/-! ## The steps of the commands -/

namespace Machine

variable {m m' : Machine} {act : MachineAct} {config : Config} {draw : Draw}

theorem mem_named_print {output : Output} {p : PeerId} (h : p ∈ (m.print output).named) :
    p ∈ m.named ∨ output.identity = some p := by
  simp only [named, print, List.filterMap_append] at h
  rcases List.mem_append.mp h with h | h
  · exact .inl h
  · obtain ⟨output', hmem, hp⟩ := List.mem_filterMap.mp h
    rw [List.mem_singleton.mp hmem] at hp
    exact .inr hp

theorem beginStore_eq {first : Bool} (h : m.beginStore P dirs config first draw = some m') :
    ∃ json stage, Stores P draw.keypair "" json ∧ (∀ n, stage ≠ .writing n) ∧
      m' = { m with process := some ⟨config, .storing first ⟨draw.keypair, "", json, stage⟩⟩ } := by
  obtain ⟨record, hrecord⟩ :=
    exists_encryptedKey (P := P) draw.keypair "" draw.salt draw.nonce draw.createdAt
  simp only [beginStore, Disk.step, hrecord] at h
  split at h
  · cases h
  · rename_i disk hdisk
    obtain ⟨hsize, hdisk⟩ := Option.ite_none_right_eq_some.mp hdisk
    cases hdisk
    cases h
    refine ⟨_, _, ⟨draw.salt, draw.nonce, draw.createdAt, record, hsize, hrecord, rfl⟩, fun n => ?_, rfl⟩
    split <;> simp

/-- What a step can do. -/
inductive Moves (F : Formats) (P : Primitives) (S : KeyScheme) (dirs : Fs.Directories) (configArg : Fs.Path)
    (m : Machine) : MachineAct → Machine → Prop
  | init {env : Env} {draw : Draw} : m.process = none →
      Moves F P S dirs configArg m (.start env (.init draw))
        { m with process := some ⟨Config.loadOrDefault F env (m.files.seen dirs) configArg, .creatingDir draw⟩ }
  | ask {env : Env} {command : Command} {output : Output} : m.process = none →
      (MachineAct.start env command).drawn = none → output.besideExisting = none →
      (∀ p, output.identity = some p → ∃ keypair, p = S.toPeerId keypair.seed ∧
        load P (Config.loadOrDefault F env (m.files.seen dirs) configArg).identity.keyPath (m.files.seen dirs) "" =
          .ok keypair) →
      Moves F P S dirs configArg m (.start env command) (m.print output)
  | generate {env : Env} {draw : Draw} {json : Bytes} {stage : StoreStage} : m.process = none →
      Stores P draw.keypair "" json → (∀ n, stage ≠ .writing n) →
      Moves F P S dirs configArg m (.start env (.identityGenerate draw))
        { m with process := some ⟨Config.loadOrDefault F env (m.files.seen dirs) configArg,
            .storing false ⟨draw.keypair, "", json, stage⟩⟩ }
  | absent {config : Config} {draw : Draw} {json : Bytes} {stage : StoreStage} :
      m.process = some ⟨config, .checking draw⟩ → m.files (config.identity.keyPath.locate dirs) = none →
      Stores P draw.keypair "" json → (∀ n, stage ≠ .writing n) →
      Moves F P S dirs configArg m .check
        { m with process := some ⟨config, .storing true ⟨draw.keypair, "", json, stage⟩⟩ }
  | directory {config : Config} {draw : Draw} : m.process = some ⟨config, .creatingDir draw⟩ →
      Moves F P S dirs configArg m .createDirAll { m with process := some ⟨config, .checking draw⟩ }
  | found {config : Config} {draw : Draw} : m.process = some ⟨config, .checking draw⟩ →
      Moves F P S dirs configArg m .check
        { m.print (.alreadyExists config.identity.keyPath (S.toPeerId draw.keypair.seed)) with process := none }
  | storing {config : Config} {first : Bool} {call call' : StoreCall} {files : Fs.Files} {act : DiskAct} :
      m.process = some ⟨config, .storing first call⟩ →
      StoreMoves (config.identity.keyPath.locate dirs) m.files call ⟨files, some call', none⟩ →
      Moves F P S dirs configArg m (.disk act)
        { m with files := files, process := some ⟨config, .storing first call'⟩ }
  | stored {config : Config} {first : Bool} {call : StoreCall} {files : Fs.Files} {act : DiskAct} :
      m.process = some ⟨config, .storing first call⟩ →
      StoreMoves (config.identity.keyPath.locate dirs) m.files call
        ⟨files, none, some (call.keypair, call.passphrase)⟩ →
      Moves F P S dirs configArg m (.disk act)
        { m with
          files := files
          process := some ⟨config, .stored first call.keypair⟩
          stored := m.stored ++ [call.keypair] }
  | initialized {config : Config} {keypair : Keypair} {process : Option Process} :
      m.process = some ⟨config, .stored true keypair⟩ →
      (∀ proc, process = some proc → ∃ text, F.toToml config = .ok text ∧
        proc = ⟨config, .writing text.toUTF8.data.toList none⟩) →
      Moves F P S dirs configArg m .announce
        { m.print (.initialized (S.toPeerId keypair.seed) config.identity.keyPath config.node.dataDir) with
          process := process }
  | generated {config : Config} {keypair : Keypair} : m.process = some ⟨config, .stored false keypair⟩ →
      Moves F P S dirs configArg m .announce
        { m.print (.generated (S.toPeerId keypair.seed)) with process := none }
  | write {act : MachineAct} {config : Config} {text : Bytes} {written : Option ℕ} {n : ℕ} :
      act.drawn = none → m.process = some ⟨config, .writing text written⟩ →
      Moves F P S dirs configArg m act
        { m with
          files := m.files.write (configToml.locate dirs) (text.take n)
          process := some ⟨config, .writing text (some n)⟩ }
  | finish {config : Config} {text : Bytes} {n : ℕ} : m.process = some ⟨config, .writing text (some n)⟩ →
      text.length ≤ n → Moves F P S dirs configArg m .finish { m.print .configWritten with process := none }
  | stop {act : MachineAct} : act.drawn = none → Moves F P S dirs configArg m act { m with process := none }

theorem withIdentity_cases (dirs : Fs.Directories) (m : Machine) (config : Config)
    (output : Keypair → Output) :
    m.withIdentity P dirs config output = .notFound ∨ (∃ e, m.withIdentity P dirs config output = .failed e) ∨
      ∃ keypair, load P config.identity.keyPath (m.files.seen dirs) "" = .ok keypair ∧
        m.withIdentity P dirs config output = output keypair := by
  unfold withIdentity
  split
  · split
    · rename_i e he
      exact .inr (.inl ⟨e, rfl⟩)
    · rename_i keypair hload
      exact .inr (.inr ⟨keypair, hload, rfl⟩)
  · exact .inl rfl

/-- A command that only looks at the key. -/
theorem ask_moves {env : Env} {command : Command} {output : Keypair → Output} (hidle : m.process = none)
    (hdrawn : (MachineAct.start env command).drawn = none)
    (hbeside : ∀ keypair, (output keypair).besideExisting = none)
    (hidentity : ∀ keypair, (output keypair).identity = some (S.toPeerId keypair.seed)) :
    m.Moves F P S dirs configArg (.start env command)
      (m.print (m.withIdentity P dirs (Config.loadOrDefault F env (m.files.seen dirs) configArg) output)) := by
  rcases withIdentity_cases (P := P) dirs m (Config.loadOrDefault F env (m.files.seen dirs) configArg)
    output with h | ⟨e, h⟩ | ⟨keypair, hload, h⟩
  · rw [h]
    exact .ask hidle hdrawn rfl fun p hp => by cases hp
  · rw [h]
    exact .ask hidle hdrawn rfl fun p hp => by cases hp
  · rw [h]
    refine .ask hidle hdrawn (hbeside keypair) fun p hp => ⟨keypair, ?_, hload⟩
    exact (Option.some.inj ((hidentity keypair).symm.trans hp)).symm

/-- A step of the store of a command. -/
theorem disk_moves {act : DiskAct} (hs : m.step F P S dirs configArg (.disk act) = some m') :
    m.Moves F P S dirs configArg (.disk act) m' := by
  simp only [step] at hs
  split at hs
  · rename_i config first call hp
    split at hs
    · cases hs
    · rename_i files call' last hd
      cases hs
      have hmoves := storeMoves_of_step hd
      have hlast : last = none := by cases hmoves <;> rfl
      exact .storing hp (hlast ▸ hmoves)
    · rename_i files keypair passphrase hd
      cases hs
      have hmoves := storeMoves_of_step hd
      have hcall : keypair = call.keypair ∧ passphrase = call.passphrase := by
        cases hmoves
        exact ⟨rfl, rfl⟩
      obtain ⟨rfl, rfl⟩ := hcall
      exact .stored hp hmoves
    · rename_i files hd
      cases hs
      have hfiles : files = m.files := by
        cases storeMoves_of_step hd
        rfl
      rw [hfiles]
      exact .stop rfl
  · cases hs

theorem step_moves (hs : m.step F P S dirs configArg act = some m') : m.Moves F P S dirs configArg act m' := by
  cases act with
  | start env command =>
      simp only [step] at hs
      split at hs
      · cases hs
      · rename_i hidle
        cases command with
        | init draw =>
            cases hs
            exact .init hidle
        | identityShow =>
            cases hs
            exact ask_moves hidle rfl (fun _ => rfl) fun _ => rfl
        | identityGenerate draw =>
            obtain ⟨json, stage, hstores, hstage, rfl⟩ := beginStore_eq hs
            exact .generate hidle hstores hstage
        | run =>
            cases hs
            exact ask_moves hidle rfl (fun _ => rfl) fun _ => rfl
  | createDirAll =>
      simp only [step] at hs
      split at hs
      · rename_i hp
        cases hs
        exact .directory hp
      · cases hs
  | check =>
      simp only [step] at hs
      split at hs
      · rename_i config draw hp
        split at hs
        · cases hs
          exact .found hp
        · rename_i hfile
          obtain ⟨json, stage, hstores, hstage, rfl⟩ := beginStore_eq hs
          exact .absent hp (Option.not_isSome_iff_eq_none.mp hfile) hstores hstage
      · cases hs
  | disk act => exact disk_moves hs
  | announce =>
      simp only [step] at hs
      split at hs
      · rename_i config keypair hp
        split at hs
        · cases hs
          refine .initialized hp fun proc hproc => ?_
          cases hproc
        · rename_i text htext
          cases hs
          refine .initialized hp fun proc hproc => ?_
          cases hproc
          exact ⟨text, htext, rfl⟩
      · rename_i config keypair hp
        cases hs
        exact .generated hp
      · cases hs
  | truncate =>
      simp only [step] at hs
      split at hs
      · rename_i hp
        cases hs
        exact .write (n := 0) rfl hp
      · cases hs
  | write n =>
      simp only [step] at hs
      split at hs
      · rename_i hp
        obtain ⟨-, hs⟩ := Option.ite_none_right_eq_some.mp hs
        cases hs
        exact .write rfl hp
      · cases hs
  | finish =>
      simp only [step] at hs
      split at hs
      · rename_i hp
        obtain ⟨hlen, hs⟩ := Option.ite_none_right_eq_some.mp hs
        cases hs
        exact .finish hp hlen
      · cases hs
  | stop =>
      simp only [step] at hs
      split at hs
      · cases hs
        exact .stop rfl
      · cases hs

end Machine

end OmniMesh.Cli
