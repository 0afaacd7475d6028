import OmniMesh.Identity.KeyStore

/-!
# What is on disk after an interrupted store
-/

namespace OmniMesh.Identity
open OmniMesh.Core OmniMesh.Crypto

variable {P : Primitives} {path : Fs.Path} {files : Fs.Files} {keypair : Keypair} {passphrase : String}

/-! ## Loading -/

/-- The contents are those that a store of the keypair under the passphrase writes. -/
def Stores (P : Primitives) (keypair : Keypair) (passphrase : String) (contents : Bytes) : Prop :=
  ∃ (salt : Salt) (nonce : Nonce) (createdAt : String) (record : EncryptedKey),
    createdAt.utf8ByteSize < 2 ^ 64 ∧
    encryptedKey P keypair passphrase salt nonce createdAt = .ok record ∧ contents = jsonBytes P record

theorem encryptedKey_ok {salt : Salt} {nonce : Nonce} {createdAt : String} {record : EncryptedKey}
    (h : encryptedKey P keypair passphrase salt nonce createdAt = .ok record) :
    P.cipher.encrypt (P.deriveKey passphrase salt) nonce keypair.seed.toList = .ok record.ciphertext ∧
      record = ⟨1, nonce, record.ciphertext, salt, createdAt⟩ := by
  unfold encryptedKey at h
  split at h
  · cases h
  · rename_i hc
    cases h
    exact ⟨hc, rfl⟩

theorem exists_encryptedKey (keypair : Keypair) (passphrase : String) (salt : Salt) (nonce : Nonce)
    (createdAt : String) :
    ∃ record, encryptedKey P keypair passphrase salt nonce createdAt = .ok record := by
  obtain ⟨c, hc⟩ := P.cipher.encrypt_ok (P.deriveKey passphrase salt) nonce keypair.seed.toList
    (by simpa using P.seed_fits)
  exact ⟨_, by rw [encryptedKey, hc]⟩

theorem readToString_text {text : String} (h : files path = some text.toUTF8.data.toList) :
    readToString files path = .ok text := by
  simp [readToString, h, String.fromUTF8?, String.fromUTF8, text.isValidUTF8]

theorem readToString_ok {text : String} (h : readToString files path = .ok text) :
    files path = some text.toUTF8.data.toList := by
  unfold readToString at h
  split at h
  · cases h
  · rename_i contents hfile
    split at h
    · cases h
    · rename_i text' htext
      cases h
      rw [hfile]
      unfold String.fromUTF8? at htext
      split at htext
      · cases htext
        rfl
      · cases htext

theorem load_absent (h : files path = none) : ∃ e, load P path files passphrase = .error e :=
  ⟨_, by rw [load, readToString, h]⟩

theorem load_empty (h : files path = some []) : ∃ e, load P path files passphrase = .error e := by
  obtain ⟨e, he⟩ := P.fromJson_empty
  refine ⟨.keyStore s!"invalid key file format: {e}", ?_⟩
  have hread : readToString files path = .ok "" := readToString_text h
  rw [load, hread]
  simp only [he]

theorem openRecord_right {record : EncryptedKey} (hversion : record.version = 1)
    (hc : P.cipher.encrypt (P.deriveKey passphrase record.salt) record.nonce keypair.seed.toList =
      .ok record.ciphertext) : openRecord P record passphrase = .ok keypair := by
  have hseed : (⟨keypair.seed.toList.toArray, by simp⟩ : Key) = keypair.seed := Vector.toArray_inj.mp rfl
  rw [openRecord, if_neg (not_not.mpr hversion), P.cipher.decrypt_encrypt _ _ _ _ hc]
  simp [hseed]

theorem openRecord_wrong {record : EncryptedKey} {e : String} (hversion : record.version = 1)
    (hd : P.cipher.decrypt (P.deriveKey passphrase record.salt) record.nonce record.ciphertext =
      .error e) : ∃ e, openRecord P record passphrase = .error e :=
  ⟨_, by rw [openRecord, if_neg (not_not.mpr hversion), hd]⟩

theorem load_stores {contents : Bytes} (h : Stores P keypair passphrase contents)
    (hfile : files path = some contents) :
    load P path files passphrase = .ok keypair ∧
      ∀ wrong, P.words passphrase → P.words wrong → wrong ≠ passphrase →
        ∃ e, load P path files wrong = .error e := by
  obtain ⟨salt, nonce, createdAt, record, hsize, hrecord, rfl⟩ := h
  obtain ⟨hc, hfields⟩ := encryptedKey_ok hrecord
  have hlen := P.cipher.encrypt_length _ _ _ _ hc
  have hload : ∀ word, load P path files word = openRecord P record word := by
    intro word
    have hjson : P.fromJson (P.toJson record) = .ok record := by
      apply P.fromJson_toJson
      · simpa using hlen
      · rw [hfields]
        exact hsize
    rw [load, readToString_text hfile]
    simp only [hjson]
  have hversion : record.version = 1 := by rw [hfields]
  have hsalt : record.salt = salt := by rw [hfields]
  have hnonce : record.nonce = nonce := by rw [hfields]
  subst hsalt hnonce
  constructor
  · rw [hload]
    exact openRecord_right hversion hc
  · intro wrong hright hwrong hne
    obtain ⟨e, he⟩ := P.rejects passphrase wrong _ _ _ _ hright hwrong hne hc
    rw [hload]
    exact openRecord_wrong hversion he

/-! ## Steps of a store -/

namespace Disk

variable {s t : Disk} {act : DiskAct}

/-- What a step can do. -/
inductive Moves (P : Primitives) (path : Fs.Path) (s : Disk) : Disk → Prop
  | stay : Moves P path s s
  | call {keypair : Keypair} {passphrase : String} {json : Bytes} {stage : StoreStage} :
      Stores P keypair passphrase json → (∀ n, stage ≠ .writing n) →
      Moves P path s { s with call := some ⟨keypair, passphrase, json, stage⟩ }
  | directory {keypair : Keypair} {passphrase : String} {json : Bytes} {stage : StoreStage} :
      s.call = some ⟨keypair, passphrase, json, stage⟩ →
      Moves P path s { s with call := some ⟨keypair, passphrase, json, .creating⟩ }
  | write {keypair : Keypair} {passphrase : String} {json : Bytes} {stage : StoreStage} {n : ℕ} :
      s.call = some ⟨keypair, passphrase, json, stage⟩ →
      Moves P path s { s with
        files := s.files.write (tmpPath path) (json.take n)
        call := some ⟨keypair, passphrase, json, .writing n⟩ }
  | rename {keypair : Keypair} {passphrase : String} {json : Bytes} {n : ℕ} :
      s.call = some ⟨keypair, passphrase, json, .writing n⟩ → json.length ≤ n →
      Moves P path s ⟨s.files.rename (tmpPath path) path, none, some (keypair, passphrase)⟩
  | stop : Moves P path s { s with call := none }

theorem step_moves (hs : s.step P path act = some t) : s.Moves P path t := by
  cases act with
  | store keypair passphrase salt nonce createdAt =>
      simp only [step] at hs
      split at hs
      · cases hs
      · obtain ⟨hsize, hs⟩ := Option.ite_none_right_eq_some.mp hs
        split at hs
        · cases hs
          exact .stay
        · rename_i record hrecord
          cases hs
          refine .call ⟨salt, nonce, createdAt, record, hsize, hrecord, rfl⟩ fun n => ?_
          split
          · simp
          · simp
  | createDirAll =>
      simp only [step] at hs
      split at hs
      · rename_i hc
        cases hs
        exact .directory hc
      · cases hs
  | create =>
      simp only [step] at hs
      split at hs
      · rename_i hc
        cases hs
        exact .write (n := 0) hc
      · cases hs
  | write n =>
      simp only [step] at hs
      split at hs
      · rename_i hc
        obtain ⟨-, hs⟩ := Option.ite_none_right_eq_some.mp hs
        cases hs
        exact .write hc
      · cases hs
  | rename =>
      simp only [step] at hs
      split at hs
      · rename_i hc
        obtain ⟨hlen, hs⟩ := Option.ite_none_right_eq_some.mp hs
        cases hs
        exact .rename hc hlen
      · cases hs
  | stop =>
      simp only [step] at hs
      split at hs
      · cases hs
        exact .stop
      · cases hs

/-- The file under the path is that of the last store that took effect. -/
structure Safe (P : Primitives) (path : Fs.Path) (s : Disk) : Prop where
  call : ∀ c, s.call = some c → Stores P c.keypair c.passphrase c.json
  tmp : ∀ c n, s.call = some c → c.stage = .writing n →
    s.files (tmpPath path) = some (c.json.take n)
  absent : s.last = none → s.files path = none
  stored : ∀ keypair passphrase, s.last = some (keypair, passphrase) →
    ∃ contents, s.files path = some contents ∧ Stores P keypair passphrase contents

theorem init_safe (h : files path = none) : Safe P path (init files) where
  call _ hc := by cases hc
  tmp _ _ hc := by cases hc
  absent _ := h
  stored _ _ hl := by cases hl

theorem Safe.step (hapart : tmpPath path ≠ path) (h : Safe P path s) (hs : s.step P path act = some t) :
    Safe P path t := by
  cases step_moves hs with
  | stay => exact h
  | call hstores hstage =>
      refine ⟨fun c hc => ?_, fun c n hc hn => ?_, h.absent, h.stored⟩
      · cases hc
        exact hstores
      · cases hc
        exact absurd hn (hstage n)
  | directory hcall =>
      have hstores := h.call _ hcall
      refine ⟨fun c hc => ?_, fun c n hc hn => ?_, h.absent, h.stored⟩
      · cases hc
        exact hstores
      · cases hc
        cases hn
  | write hcall =>
      have hstores := h.call _ hcall
      have hpath : ∀ contents, s.files.write (tmpPath path) contents path = s.files path :=
        fun _ => Fs.Files.write_of_ne hapart.symm
      refine ⟨fun c hc => ?_, fun c n hc hn => ?_, fun hl => ?_, fun keypair passphrase hl => ?_⟩
      · cases hc
        exact hstores
      · cases hc
        cases hn
        exact Fs.Files.write_self ..
      · exact (hpath _).trans (h.absent hl)
      · obtain ⟨contents, hfile, hstored⟩ := h.stored keypair passphrase hl
        exact ⟨contents, (hpath _).trans hfile, hstored⟩
  | rename hcall hlen =>
      refine ⟨fun c hc => ?_, fun c n hc => ?_, fun hl => ?_, fun keypair passphrase hl => ?_⟩
      · cases hc
      · cases hc
      · cases hl
      · cases hl
        refine ⟨_, (Fs.Files.rename_new ..).trans ?_, h.call _ hcall⟩
        rw [h.tmp _ _ hcall rfl, List.take_of_length_le hlen]
  | stop =>
      refine ⟨fun c hc => ?_, fun c n hc => ?_, h.absent, h.stored⟩
      · cases hc
      · cases hc

theorem Safe.recovers (h : Safe P path s) : s.Recovers P path := by
  unfold Recovers
  split
  · rename_i hl
    exact fun passphrase => load_absent (h.absent hl)
  · rename_i keypair right hl
    obtain ⟨contents, hfile, hstores⟩ := h.stored keypair right hl
    exact load_stores hstores hfile

/-! ## A temporary file under the same path -/

def zeroSalt : Salt := Vector.replicate 32 0

def zeroNonce : Nonce := Vector.replicate 12 0

/-- A store up to the moment when the temporary file is empty. -/
def beginStore (path : Fs.Path) (keypair : Keypair) (passphrase : String) : List DiskAct :=
  .store keypair passphrase zeroSalt zeroNonce "" ::
    ((if path.parent.isSome then [.createDirAll] else []) ++ [.create])

theorem run_beginStore (P : Primitives) (path : Fs.Path) (keypair : Keypair) (passphrase : String)
    (h : s.call = none) :
    ∃ json, Lts.run (step P path) s (beginStore path keypair passphrase) =
      some ⟨s.files.write (tmpPath path) [], some ⟨keypair, passphrase, json, .writing 0⟩, s.last⟩ := by
  obtain ⟨record, hrecord⟩ := exists_encryptedKey (P := P) keypair passphrase zeroSalt zeroNonce ""
  refine ⟨jsonBytes P record, ?_⟩
  cases hparent : path.parent.isSome with
  | true => simp [beginStore, Lts.run, step, h, hrecord, hparent]
  | false => simp [beginStore, Lts.run, step, h, hrecord, hparent]

theorem exists_run_stored (P : Primitives) (path : Fs.Path) (keypair : Keypair) (passphrase : String)
    (h : s.call = none) : ∃ acts t, Lts.run (step P path) s acts = some t ∧ t.call = none ∧
      t.last = some (keypair, passphrase) := by
  obtain ⟨json, hjson⟩ := run_beginStore P path keypair passphrase h
  refine ⟨beginStore path keypair passphrase ++ [.write json.length, .rename], ?_⟩
  rw [Lts.run_append, hjson]
  simp [Lts.run, step]

/-- The store stops before it has written anything. -/
theorem exists_run_stopped (P : Primitives) (path : Fs.Path) (keypair : Keypair) (passphrase : String)
    (h : s.call = none) : ∃ acts t, Lts.run (step P path) s acts = some t ∧ t.last = s.last ∧
      t.files (tmpPath path) = some [] := by
  obtain ⟨json, hjson⟩ := run_beginStore P path keypair passphrase h
  refine ⟨beginStore path keypair passphrase ++ [.stop], ?_⟩
  rw [Lts.run_append, hjson]
  simp [Lts.run, step]

/-- The second of two stores stops early, and the key of the first one is lost. -/
theorem exists_lost_key (P : Primitives) {path : Fs.Path} (hsame : tmpPath path = path)
    (first second : Keypair) (right other : String) (files : Fs.Files) :
    ∃ acts s, Lts.run (step P path) (init files) acts = some s ∧ s.last = some (first, right) ∧
      ∀ passphrase, ∃ e, load P path s.files passphrase = .error e := by
  obtain ⟨acts, u, hu, hcall, hlast⟩ := exists_run_stored P path first right (s := init files) rfl
  obtain ⟨acts', t, ht, hlast', hfile⟩ := exists_run_stopped P path second other hcall
  refine ⟨acts ++ acts', t, ?_, hlast'.trans hlast, fun _ => load_empty (hsame ▸ hfile)⟩
  rw [Lts.run_append, hu]
  exact ht

end Disk

end OmniMesh.Identity
