import OmniMesh.Cli.Lemmas.Machine
import OmniMesh.Identity.Lemmas.Delete

/-!
# Where the keys in the files come from

`Traced` follows every keypair that a command draws and every file that it writes, whatever the
configurations are and whichever files they name.
-/

namespace OmniMesh.Cli
open OmniMesh.Core OmniMesh.Crypto OmniMesh.Identity

variable {F : Formats} {P : Primitives} {S : KeyScheme} {dirs : Fs.Directories} {configArg : Fs.Path}
  {files : Fs.Files} {used used' drawn : List Keypair} {contents : Bytes} {keypair : Keypair}

/-! ## Files -/

/-- A key of the files, under whichever path. -/
def Holds (P : Primitives) (files : Fs.Files) (keypair : Keypair) : Prop :=
  ∃ path, load P path files "" = .ok keypair

/-- The contents of a file were in a file before, or they are the beginning of a record whose store has
begun, or of a configuration. -/
inductive Origin (F : Formats) (P : Primitives) (files : Fs.Files) (used : List Keypair) (contents : Bytes) : Prop
  | before {path : Fs.Path} : files path = some contents → Origin F P files used contents
  | record {keypair : Keypair} {json : Bytes} {n : ℕ} : keypair ∈ used → Stores P keypair "" json →
      contents = json.take n → Origin F P files used contents
  | config {config : Config} {text : String} {n : ℕ} : F.toToml config = .ok text →
      contents = text.toUTF8.data.toList.take n → Origin F P files used contents

theorem Origin.mono (h : Origin F P files used contents) (hsub : used ⊆ used') :
    Origin F P files used' contents := by
  cases h with
  | before hfile => exact .before hfile
  | record hmem hstores heq => exact .record (hsub hmem) hstores heq
  | config htext heq => exact .config htext heq

/-- A key in a file was in a file before, or its store has begun. -/
theorem Origin.of_load {now : Fs.Files} {path : Fs.Path} (hP : P.Strict) (hF : F.Foreign P)
    (h : Origin F P files used contents) (hfile : now path = some contents)
    (hload : load P path now "" = .ok keypair) : keypair ∈ used ∨ Holds P files keypair := by
  cases h with
  | @before path' hbefore =>
      refine .inr ⟨path', ?_⟩
      rw [← hload]
      simp only [load, readToString, hfile, hbefore]
  | @record keypair' json n hmem hstores heq =>
      rw [heq] at hfile
      rcases Nat.lt_or_ge n json.length with hn | hn
      · have hpart : ∃ e, load P path now "" = .error e := load_part hP hstores hn hfile
        obtain ⟨e, he⟩ := hpart
        cases he.symm.trans hload
      · rw [List.take_of_length_le hn] at hfile
        cases (load_stores hstores hfile).1.symm.trans hload
        exact .inl hmem
  | @config config text n htext heq =>
      rcases load_cases P path now "" with ⟨e, he⟩ | ⟨part, record, hpart, hrecord, -⟩
      · cases he.symm.trans hload
      · have hbytes := (Option.some.inj (hpart.symm.trans hfile)).trans heq
        obtain ⟨e, he⟩ := hF config text part htext (hbytes ▸ List.take_prefix n _)
        cases he.symm.trans hrecord

theorem StoreMoves.origin {path p : Fs.Path} {call : StoreCall} {d : Disk} {now : Fs.Files}
    (h : StoreMoves path now call d) (hmem : call.keypair ∈ used) (hstores : Stores P call.keypair "" call.json)
    (hnow : ∀ p contents, now p = some contents → Origin F P files used contents)
    (hfile : d.files p = some contents) : Origin F P files used contents := by
  cases h with
  | directory => exact hnow p contents hfile
  | write =>
      rcases Fs.Files.eq_or_of_write hfile with hnew | hold
      · exact .record hmem hstores hnew
      · exact hnow p contents hold
  | rename =>
      obtain ⟨p', hp'⟩ := Fs.Files.exists_of_rename hfile
      exact hnow p' contents hp'
  | stop => exact hnow p contents hfile

namespace Machine

variable {m m' : Machine} {act : MachineAct} {acts : List MachineAct}

/-! ## Keypairs -/

/-- The keypair of an `init` that has not yet looked for a key. -/
def waiting (m : Machine) : List Keypair :=
  match m.process with
  | some ⟨_, .creatingDir draw⟩ => [draw.keypair]
  | some ⟨_, .checking draw⟩ => [draw.keypair]
  | _ => []

theorem waiting_of_idle (h : m.process = none) : m.waiting = [] := by simp only [waiting, h]

/-- The identities that were named next to one that exists. -/
def beside (m : Machine) : List PeerId := m.output.filterMap Output.besideExisting

theorem beside_print {output : Output} (h : output.besideExisting = none) : (m.print output).beside = m.beside := by
  rw [beside, print, List.filterMap_append, List.filterMap_cons_none h, List.filterMap_nil, List.append_nil]
  rfl

/-- Every keypair that was drawn is used, or named next to one that exists, or lost. -/
def Spent (S : KeyScheme) (m : Machine) (drawn used : List Keypair) : Prop :=
  ∀ p, m.beside.count p + (m.waiting.map fun kp => S.toPeerId kp.seed).count p +
    (used.map fun kp => S.toPeerId kp.seed).count p ≤ (drawn.map fun kp => S.toPeerId kp.seed).count p

theorem Spent.keep (h : Spent S m drawn used) (hbeside : m'.beside = m.beside)
    (hwaiting : m'.waiting = m.waiting ∨ m'.waiting = []) : Spent S m' (drawn ++ []) used := by
  intro p
  rw [hbeside, List.append_nil]
  have hp := h p
  rcases hwaiting with hwaiting | hwaiting
  · rw [hwaiting]
    exact hp
  · rw [hwaiting, List.map_nil, List.count_nil]
    omega

/-- A keypair that is drawn waits, or its store begins at once. -/
theorem Spent.draw (h : Spent S m drawn used) (hidle : m.process = none) (hbeside : m'.beside = m.beside)
    (hnow : m'.waiting = [keypair] ∧ used' = used ∨ m'.waiting = [] ∧ used' = used ++ [keypair]) :
    Spent S m' (drawn ++ [keypair]) used' := by
  intro p
  have hp := h p
  rw [waiting_of_idle hidle, List.map_nil, List.count_nil] at hp
  rcases hnow with ⟨hwaiting, rfl⟩ | ⟨hwaiting, rfl⟩
  · rw [hbeside, hwaiting, List.map_append, List.count_append, List.map_singleton]
    omega
  · simp only [hbeside, hwaiting, List.map_append, List.count_append, List.map_nil, List.count_nil]
    omega

/-- A keypair that has waited is stored, or named next to the one that exists. -/
theorem Spent.settle (h : Spent S m drawn used) (hwaiting : m.waiting = [keypair]) (hgone : m'.waiting = [])
    (hnow : m'.beside = m.beside ∧ used' = used ++ [keypair] ∨
      m'.beside = m.beside ++ [S.toPeerId keypair.seed] ∧ used' = used) : Spent S m' (drawn ++ []) used' := by
  intro p
  have hp := h p
  rw [hwaiting, List.map_singleton] at hp
  rcases hnow with ⟨hbeside, rfl⟩ | ⟨hbeside, rfl⟩
  · simp only [hbeside, hgone, List.map_append, List.count_append, List.map_nil, List.count_nil, List.append_nil,
      List.map_singleton]
    omega
  · simp only [hbeside, hgone, List.count_append, List.map_nil, List.count_nil, List.append_nil]
    omega

/-- When no two keypairs have one identity, what stands next to an existing identity is not used. -/
theorem Spent.not_used {p : PeerId} (h : Spent S m drawn used)
    (hdistinct : (drawn.map fun kp => S.toPeerId kp.seed).Nodup) (hp : p ∈ m.beside) :
    p ∈ (drawn.map fun kp => S.toPeerId kp.seed) ∧ p ∉ (used.map fun kp => S.toPeerId kp.seed) := by
  have hbeside := List.count_pos_iff.mpr hp
  have hle := List.nodup_iff_count_le_one.mp hdistinct p
  have hcount := h p
  refine ⟨List.count_pos_iff.mp (by omega), fun hused => ?_⟩
  have hpos := List.count_pos_iff.mpr hused
  omega

/-! ## Steps -/

def StageTraced (F : Formats) (P : Primitives) (used : List Keypair) : Stage → Prop
  | .storing _ call => call.keypair ∈ used ∧ Stores P call.keypair "" call.json
  | .stored _ keypair => keypair ∈ used
  | .writing text _ => ∃ config t, F.toToml config = .ok t ∧ text = t.toUTF8.data.toList
  | _ => True

structure Traced (F : Formats) (P : Primitives) (S : KeyScheme) (files : Fs.Files) (m : Machine)
    (drawn used : List Keypair) : Prop where
  spent : Spent S m drawn used
  process : ∀ config stage, m.process = some ⟨config, stage⟩ → StageTraced F P used stage
  origin : ∀ path contents, m.files path = some contents → Origin F P files used contents
  named : ∀ p ∈ m.named, ∃ keypair, p = S.toPeerId keypair.seed ∧ (keypair ∈ used ∨ Holds P files keypair)

theorem start_traced : Traced F P S files (start files) [] [] where
  spent _ := le_rfl
  process _ _ hp := by cases hp
  origin _ _ hfile := .before hfile
  named _ hp := absurd hp List.not_mem_nil

theorem Traced.of_load {path : Fs.Path} (hP : P.Strict) (hF : F.Foreign P) (h : Traced F P S files m drawn used)
    (hload : load P path m.files "" = .ok keypair) : keypair ∈ used ∨ Holds P files keypair := by
  rcases load_cases P path m.files "" with ⟨e, he⟩ | ⟨text, record, hfile, -, -⟩
  · cases he.symm.trans hload
  · exact (h.origin path _ hfile).of_load hP hF hfile hload

/-- A step that begins no store. -/
theorem Traced.keep {drawn' : List Keypair} (h : Traced F P S files m drawn used)
    (hspent : Spent S m' drawn' used)
    (hprocess : ∀ config stage, m'.process = some ⟨config, stage⟩ → StageTraced F P used stage)
    (hfiles : ∀ path contents, m'.files path = some contents → m.files path = some contents ∨
      Origin F P files used contents)
    (hnamed : ∀ p ∈ m'.named, p ∈ m.named ∨
      ∃ keypair, p = S.toPeerId keypair.seed ∧ (keypair ∈ used ∨ Holds P files keypair)) :
    Traced F P S files m' drawn' used where
  spent := hspent
  process := hprocess
  origin path contents hfile := (hfiles path contents hfile).elim (h.origin path contents) id
  named p hp := (hnamed p hp).elim (h.named p) id

/-- A step that prints and leaves the files alone. -/
theorem Traced.say {drawn' : List Keypair} {output : Output} {process : Option Process}
    (h : Traced F P S files m drawn used) (hspent : Spent S { m.print output with process } drawn' used)
    (hprocess : ∀ config stage, process = some ⟨config, stage⟩ → StageTraced F P used stage)
    (houtput : ∀ p, output.identity = some p →
      ∃ keypair, p = S.toPeerId keypair.seed ∧ (keypair ∈ used ∨ Holds P files keypair)) :
    Traced F P S files { m.print output with process } drawn' used :=
  h.keep hspent hprocess (fun _ _ => .inl) fun p hp => (mem_named_print hp).imp_right (houtput p)

/-- A store begins: what was known of the other keypairs stays. -/
theorem Traced.begin_store {drawn' : List Keypair} {config : Config} {first : Bool} {call : StoreCall}
    (h : Traced F P S files m drawn used)
    (hspent : Spent S { m with process := some ⟨config, .storing first call⟩ } drawn' (used ++ [call.keypair]))
    (hstores : Stores P call.keypair "" call.json) :
    Traced F P S files { m with process := some ⟨config, .storing first call⟩ } drawn' (used ++ [call.keypair]) where
  spent := hspent
  process config' stage' hp := by
    cases hp
    exact ⟨List.mem_append_right _ (List.mem_singleton_self _), hstores⟩
  origin path contents hfile := (h.origin path contents hfile).mono (List.subset_append_left _ _)
  named p hp := by
    obtain ⟨keypair, rfl, hknown⟩ := h.named p hp
    exact ⟨keypair, rfl, hknown.imp_left fun hmem => List.mem_append_left _ hmem⟩

theorem Traced.step (hP : P.Strict) (hF : F.Foreign P) (h : Traced F P S files m drawn used)
    (hs : m.step F P S dirs configArg act = some m') :
    ∃ used', Traced F P S files m' (drawn ++ act.drawn.toList) used' := by
  cases step_moves hs with
  | @init env draw hidle =>
      refine ⟨used, h.keep (h.spent.draw hidle rfl (.inl ⟨rfl, rfl⟩)) (fun config stage hp => ?_)
        (fun _ _ => .inl) fun _ => .inl⟩
      cases hp
      trivial
  | @ask env command output hidle hdrawn hbeside hload =>
      rw [hdrawn]
      refine ⟨used, h.say (h.spent.keep (beside_print hbeside) (.inl rfl)) h.process fun p hp => ?_⟩
      obtain ⟨keypair, rfl, hload⟩ := hload p hp
      exact ⟨keypair, rfl, h.of_load hP hF hload⟩
  | generate hidle hstores =>
      exact ⟨_, h.begin_store (h.spent.draw hidle rfl (.inr ⟨rfl, rfl⟩)) hstores⟩
  | @absent config draw json stage hproc hfile hstores =>
      have hwaiting : m.waiting = [draw.keypair] := by simp only [waiting, hproc]
      exact ⟨_, h.begin_store (h.spent.settle hwaiting rfl (.inl ⟨rfl, rfl⟩)) hstores⟩
  | @directory config draw hproc =>
      refine ⟨used, h.keep (h.spent.keep rfl (.inl ?_)) (fun config stage hp => ?_) (fun _ _ => .inl) fun _ => .inl⟩
      · simp only [waiting, hproc]
      · cases hp
        trivial
  | @found config draw hproc =>
      have hwaiting : m.waiting = [draw.keypair] := by simp only [waiting, hproc]
      refine ⟨used, h.say (h.spent.settle hwaiting rfl (.inr ⟨?_, rfl⟩)) (fun config stage hp => by cases hp)
        fun p hp => by cases hp⟩
      simp only [beside, print, List.filterMap_append]
      rfl
  | @storing config first call call' now act hproc hmoves =>
      obtain ⟨hmem, hstores⟩ := h.process _ _ hproc
      have hcall : call'.keypair = call.keypair ∧ call'.json = call.json := by cases hmoves <;> exact ⟨rfl, rfl⟩
      refine ⟨used, h.keep (h.spent.keep rfl (.inr rfl)) (fun config stage hp => ?_)
        (fun path contents hfile => .inr (hmoves.origin hmem hstores h.origin hfile)) fun _ => .inl⟩
      cases hp
      exact ⟨hcall.1 ▸ hmem, by rw [hcall.1, hcall.2]; exact hstores⟩
  | @stored config first call now act hproc hmoves =>
      obtain ⟨hmem, hstores⟩ := h.process _ _ hproc
      refine ⟨used, h.keep (h.spent.keep rfl (.inr rfl)) (fun config stage hp => ?_)
        (fun path contents hfile => .inr (hmoves.origin hmem hstores h.origin hfile)) fun _ => .inl⟩
      cases hp
      exact hmem
  | @initialized config keypair process hproc hprocess =>
      refine ⟨used, h.say (h.spent.keep (beside_print rfl) (.inr ?_)) (fun config stage hp => ?_) fun p hp => ?_⟩
      · cases process with
        | none => rfl
        | some proc =>
            obtain ⟨text, -, rfl⟩ := hprocess proc rfl
            rfl
      · obtain ⟨text, htext, hproc'⟩ := hprocess _ hp
        cases hproc'
        exact ⟨_, text, htext, rfl⟩
      · cases hp
        exact ⟨keypair, rfl, .inl (h.process _ _ hproc)⟩
  | @generated config keypair hproc =>
      refine ⟨used, h.say (h.spent.keep (beside_print rfl) (.inr rfl)) (fun config stage hp => by cases hp)
        fun p hp => ?_⟩
      cases hp
      exact ⟨keypair, rfl, .inl (h.process _ _ hproc)⟩
  | @write act config text written n hdrawn hproc =>
      rw [hdrawn]
      obtain ⟨config', t, htext, rfl⟩ := h.process _ _ hproc
      refine ⟨used, h.keep (h.spent.keep rfl (.inr rfl)) (fun config stage hp => ?_) (fun path contents hfile => ?_)
        fun _ => .inl⟩
      · cases hp
        exact ⟨config', t, htext, rfl⟩
      · exact (Fs.Files.eq_or_of_write hfile).symm.imp_right (.config htext)
  | finish hproc hlen =>
      exact ⟨used, h.say (h.spent.keep (beside_print rfl) (.inr rfl)) (fun config stage hp => by cases hp)
        fun p hp => by cases hp⟩
  | stop hdrawn =>
      rw [hdrawn]
      exact ⟨used, h.keep (h.spent.keep rfl (.inr rfl)) (fun config stage hp => by cases hp) (fun _ _ => .inl)
        fun _ => .inl⟩

theorem run_traced (hP : P.Strict) (hF : F.Foreign P)
    (hr : Lts.run (Machine.step F P S dirs configArg) (start files) acts = some m) :
    ∃ used, Traced F P S files m (acts.filterMap MachineAct.drawn) used := by
  have htraced : ∃ used, Traced F P S files m ([] ++ acts.filterMap MachineAct.drawn) used := by
    refine Lts.run_filterMap (I := fun m drawn => ∃ used, Traced F P S files m drawn used) ?_ ⟨[], start_traced⟩ hr
    rintro s act t drawn - ⟨used, h⟩ hs
    exact h.step hP hF hs
  exact htraced

end Machine

end OmniMesh.Cli
