import OmniMesh.Identity.Delete
import OmniMesh.Identity.Lemmas.Concrete
import OmniMesh.Identity.Lemmas.KeyStore
import OmniMesh.Lib.Exact

/-!
# What a deletion leaves
-/

namespace OmniMesh.Identity
open OmniMesh.Core

variable {P : Primitives} {path : Fs.Path} {files : Fs.Files} {keypair : Keypair} {passphrase : String}

/-! ## Files that are no key -/

theorem load_cases (P : Primitives) (path : Fs.Path) (files : Fs.Files) (passphrase : String) :
    (∃ e, load P path files passphrase = .error e) ∨
      ∃ text record, files path = some text.toUTF8.data.toList ∧ P.fromJson text = .ok record ∧
        load P path files passphrase = openRecord P record passphrase := by
  unfold load
  split
  · rename_i e _
    exact .inl ⟨_, rfl⟩
  · rename_i text hread
    split
    · exact .inl ⟨_, rfl⟩
    · rename_i record hrecord
      exact .inr ⟨text, record, readToString_ok hread, hrecord, rfl⟩

theorem load_zeros (hP : P.Strict) {n : ℕ} (h : files path = some (zeros n)) :
    ∃ e, load P path files passphrase = .error e := by
  rcases load_cases P path files passphrase with he | ⟨text, record, hfile, hrecord, hload⟩
  · exact he
  · have hversion := hP.zeros n text record (Option.some.inj (hfile.symm.trans h)) hrecord
    rw [hload, openRecord, if_pos hversion]
    exact ⟨_, rfl⟩

theorem load_part (hP : P.Strict) {json : Bytes} {n : ℕ} {word : String} (hstores : Stores P keypair word json)
    (hn : n < json.length) (h : files path = some (json.take n)) :
    ∃ e, load P path files passphrase = .error e := by
  rcases load_cases P path files passphrase with he | ⟨text, record, hfile, hrecord, -⟩
  · exact he
  · obtain ⟨salt, nonce, createdAt, record', hsize, hrecord', rfl⟩ := hstores
    obtain ⟨hc, hfields⟩ := encryptedKey_ok hrecord'
    have hlen : record'.ciphertext.length = 48 := by simpa using P.cipher.encrypt_length _ _ _ _ hc
    have hcreated : record'.createdAt.utf8ByteSize < 2 ^ 64 := by
      rw [hfields]
      exact hsize
    obtain ⟨e, he⟩ := hP.part record' text n hlen hcreated (Option.some.inj (hfile.symm.trans h)) hn
    cases he.symm.trans hrecord

/-! ## Steps -/

namespace Vault

variable {v w : Vault} {act : VaultAct}

/-- The file under a path is a key that was stored, or none. -/
def Holds (P : Primitives) (files : Fs.Files) (path : Fs.Path) (junk : Bytes → Prop) :
    Option (Keypair × String) → Prop
  | some (keypair, passphrase) => ∃ contents, files path = some contents ∧ Stores P keypair passphrase contents
  | none => ∀ contents, files path = some contents → junk contents

/-- A record that was not written to its end. -/
def Part (P : Primitives) (contents : Bytes) : Prop :=
  ∃ keypair passphrase json n, Stores P keypair passphrase json ∧ n < json.length ∧ contents = json.take n

def Writing (v : Vault) : Prop := ∃ c n, v.disk.call = some c ∧ c.stage = .writing n

structure Guarded (P : Primitives) (path : Fs.Path) (v : Vault) : Prop where
  call : ∀ c, v.disk.call = some c → Stores P c.keypair c.passphrase c.json
  tmp : ∀ c n, v.disk.call = some c → c.stage = .writing n →
    v.disk.files (tmpPath path) = some (c.json.take n)
  key : Holds P v.disk.files path (fun contents => ∃ n, contents = zeros n) v.disk.last
  left : ¬ v.Writing → Holds P v.disk.files (tmpPath path) (Part P) v.left
  idle : v.deleting = true → v.disk.call = none

theorem init_guarded (hfile : files path = none) (htmp : files (tmpPath path) = none) :
    Guarded P path (init files) where
  call _ hc := by cases hc
  tmp _ _ hc := by cases hc
  key contents hc := by cases hfile.symm.trans hc
  left _ contents hc := by cases htmp.symm.trans hc
  idle hd := by cases hd

theorem Holds.congr {files' : Fs.Files} {junk : Bytes → Prop} {key : Option (Keypair × String)}
    (h : Holds P files path junk key) (hf : files' path = files path) : Holds P files' path junk key := by
  cases key with
  | none => exact fun contents hc => h contents (hf.symm.trans hc)
  | some key =>
      obtain ⟨contents, hc, hstores⟩ := h
      exact ⟨contents, hf.trans hc, hstores⟩

/-- A part of the record is written to the temporary file. -/
theorem Guarded.write_part {call : StoreCall} {left : Option (Keypair × String)} {n : ℕ}
    (hapart : tmpPath path ≠ path) (h : Guarded P path v) (hdel : v.deleting = false)
    (hcall : v.disk.call = some call) :
    Guarded P path { v with
      disk := { v.disk with
        files := v.disk.files.write (tmpPath path) (call.json.take n)
        call := some { call with stage := .writing n } }
      left } := by
  have hstores := h.call _ hcall
  refine ⟨fun c hc => ?_, fun c n hc hn => ?_, h.key.congr (Fs.Files.write_of_ne hapart.symm), fun hw => ?_,
    fun hd => ?_⟩
  · cases hc
    exact hstores
  · cases hc
    cases hn
    exact Fs.Files.write_self ..
  · exact absurd ⟨_, _, rfl, rfl⟩ hw
  · cases hdel.symm.trans hd

/-- A store that stops leaves its temporary file as it is. -/
theorem Guarded.stop_store {call : StoreCall} (h : Guarded P path v) (hcall : v.disk.call = some call) :
    Guarded P path { v with disk := { v.disk with call := none }, left := v.leftAfter .stop } := by
  refine ⟨fun c hc => ?_, fun c n hc => ?_, h.key, fun _ => ?_, fun _ => rfl⟩
  · cases hc
  · cases hc
  obtain ⟨keypair, passphrase, json, stage⟩ := call
  cases stage with
  | writing written =>
      have htmp := h.tmp _ _ hcall rfl
      simp only [leftAfter, hcall]
      split
      · rename_i hlen
        exact ⟨json, by rw [htmp, List.take_of_length_le hlen], h.call _ hcall⟩
      · rename_i hlen
        intro contents hc
        rw [htmp] at hc
        exact ⟨keypair, passphrase, json, written, h.call _ hcall, not_le.mp hlen, (Option.some.inj hc).symm⟩
  | _ =>
      have hwriting : ¬ v.Writing := by
        rintro ⟨c, n, hc, hn⟩
        cases hcall.symm.trans hc
        cases hn
      simp only [leftAfter, hcall]
      exact h.left hwriting

theorem Guarded.store {act : DiskAct} {d : Disk} (hapart : tmpPath path ≠ path) (h : Guarded P path v)
    (hdel : v.deleting = false) (hs : Disk.step P path v.disk act = some d) :
    Guarded P path { v with disk := d, left := v.leftAfter act } := by
  cases act with
  | store keypair passphrase salt nonce createdAt =>
      simp only [Disk.step] at hs
      split at hs
      · cases hs
      · rename_i hcall
        obtain ⟨hsize, hs⟩ := Option.ite_none_right_eq_some.mp hs
        have hwriting : ¬ v.Writing := by
          rintro ⟨c, n, hc, -⟩
          cases hcall.symm.trans hc
        split at hs
        · cases hs
          exact h
        · rename_i record hrecord
          cases hs
          refine ⟨fun c hc => ?_, fun c n hc hn => ?_, h.key, fun _ => h.left hwriting, fun hd => ?_⟩
          · cases hc
            exact ⟨salt, nonce, createdAt, record, hsize, hrecord, rfl⟩
          · cases hc
            dsimp only at hn
            split at hn <;> cases hn
          · cases hdel.symm.trans hd
  | createDirAll =>
      simp only [Disk.step] at hs
      split at hs
      · rename_i keypair passphrase json hcall
        cases hs
        have hstores := h.call _ hcall
        have hwriting : ¬ v.Writing := by
          rintro ⟨c, n, hc, hn⟩
          cases hcall.symm.trans hc
          cases hn
        refine ⟨fun c hc => ?_, fun c n hc hn => ?_, h.key, fun _ => h.left hwriting, fun hd => ?_⟩
        · cases hc
          exact hstores
        · cases hc
          cases hn
        · cases hdel.symm.trans hd
      · cases hs
  | create =>
      simp only [Disk.step] at hs
      split at hs
      · rename_i keypair passphrase json hcall
        cases hs
        exact h.write_part (n := 0) hapart hdel hcall
      · cases hs
  | write n =>
      simp only [Disk.step] at hs
      split at hs
      · rename_i keypair passphrase json written hcall
        obtain ⟨-, hs⟩ := Option.ite_none_right_eq_some.mp hs
        cases hs
        exact h.write_part hapart hdel hcall
      · cases hs
  | rename =>
      simp only [Disk.step] at hs
      split at hs
      · rename_i keypair passphrase json written hcall
        obtain ⟨hlen, hs⟩ := Option.ite_none_right_eq_some.mp hs
        cases hs
        refine ⟨fun c hc => ?_, fun c n hc => ?_, ?_, fun _ contents hc => ?_, fun _ => rfl⟩
        · cases hc
        · cases hc
        · refine ⟨json, (Fs.Files.rename_new ..).trans ?_, h.call _ hcall⟩
          rw [h.tmp _ _ hcall rfl, List.take_of_length_le hlen]
        · simp only [Fs.Files.rename_old hapart] at hc
          cases hc
      · cases hs
  | stop =>
      simp only [Disk.step] at hs
      split at hs
      · rename_i c hcall
        cases hs
        exact h.stop_store hcall
      · cases hs

theorem Guarded.step (hapart : tmpPath path ≠ path) (h : Guarded P path v) (hs : v.step P path act = some w) :
    Guarded P path w := by
  cases act with
  | store act =>
      simp only [Vault.step] at hs
      split at hs
      · cases hs
      · rename_i hdel
        obtain ⟨d, hd, rfl⟩ := Option.map_eq_some_iff.mp hs
        exact h.store hapart (Bool.eq_false_iff.mpr hdel) hd
  | delete =>
      simp only [Vault.step] at hs
      split at hs
      · cases hs
      · rename_i hbusy
        simp only [Bool.or_eq_true, not_or, Bool.not_eq_true, Option.isSome_eq_false_iff,
          Option.isNone_iff_eq_none] at hbusy
        split at hs
        · cases hs
          exact ⟨h.call, h.tmp, h.key, h.left, fun _ => hbusy.2⟩
        · cases hs
          exact h
  | zero n =>
      simp only [Vault.step] at hs
      split at hs
      · rename_i hdel
        cases hs
        have hidle := h.idle (Bool.and_eq_true_iff.mp hdel).1
        have htmp : ∀ contents, v.disk.files.write path contents (tmpPath path) = v.disk.files (tmpPath path) :=
          fun _ => Fs.Files.write_of_ne hapart
        refine ⟨h.call, fun c n hc => ?_, fun contents hc => ?_, fun hw => ?_, fun _ => hidle⟩
        · cases hidle.symm.trans hc
        · simp only [Fs.Files.write_self] at hc
          exact ⟨n, (Option.some.inj hc).symm⟩
        · exact (h.left hw).congr (htmp _)
      · cases hs
  | remove =>
      simp only [Vault.step] at hs
      split at hs
      · rename_i hdel
        cases hs
        have hidle := h.idle hdel
        refine ⟨h.call, fun c n hc => ?_, fun contents hc => ?_, fun hw => ?_, fun hd => by cases hd⟩
        · cases hidle.symm.trans hc
        · simp only [Fs.Files.remove_self] at hc
          cases hc
        · exact (h.left hw).congr (Fs.Files.remove_of_ne hapart)
      · cases hs
  | stop =>
      simp only [Vault.step] at hs
      split at hs
      · cases hs
        exact ⟨h.call, h.tmp, h.key, h.left, fun hd => by cases hd⟩
      · cases hs

/-! ## What can be loaded -/

theorem Holds.recovers {self : Disk} {junk : Bytes → Prop} (h : Holds P self.files path junk self.last)
    (hjunk : ∀ contents, junk contents → self.files path = some contents →
      ∀ passphrase, ∃ e, load P path self.files passphrase = .error e) : self.Recovers P path := by
  unfold Disk.Recovers
  split
  · rename_i hlast
    rw [hlast] at h
    intro passphrase
    cases hfile : self.files path with
    | none => exact load_absent hfile
    | some contents => exact hjunk contents (h contents hfile) hfile passphrase
  · rename_i keypair right hlast
    rw [hlast] at h
    obtain ⟨contents, hfile, hstores⟩ := h
    exact load_stores hstores hfile

theorem Guarded.recovers (hP : P.Strict) (h : Guarded P path v) : v.disk.Recovers P path := by
  refine h.key.recovers ?_
  rintro contents ⟨n, rfl⟩ hfile passphrase
  exact load_zeros hP hfile

theorem Guarded.left_recovers (hP : P.Strict) (h : Guarded P path v) (hidle : v.disk.call = none) :
    Disk.Recovers P (tmpPath path) { v.disk with last := v.left } := by
  have hwriting : ¬ v.Writing := by
    rintro ⟨c, n, hc, -⟩
    cases hidle.symm.trans hc
  refine Holds.recovers (h.left hwriting) ?_
  rintro contents ⟨keypair, word, json, n, hstores, hn, rfl⟩ hfile passphrase
  exact load_part hP hstores hn hfile

theorem run_guarded {acts : List VaultAct} (hapart : tmpPath path ≠ path) (hfile : files path = none)
    (htmp : files (tmpPath path) = none) (hr : Lts.run (step P path) (init files) acts = some v) :
    Guarded P path v :=
  Lts.run_invariant (fun _ _ _ h hs => h.step hapart hs) (init_guarded hfile htmp) hr

end Vault

/-! ## A concrete instance -/

theorem EncryptedKey.codec_exact : EncryptedKey.codec.Exact := by
  have hu32 : u32.Exact :=
    (Codec.exact_nat 4).map fun n hn => UInt32.toNat_ofNat_of_lt (lt_of_lt_of_eq hn (by norm_num))
  exact (hu32.pair ((Codec.exact_array 12).pair (Codec.exact_bytes.pair
    ((Codec.exact_array 32).pair Codec.exact_string)))).map fun _ _ => rfl

theorem toList_prefix_of_take {part text : String} {n : ℕ}
    (h : part.toUTF8.data.toList = text.toUTF8.data.toList.take n) : part.toList <+: text.toList := by
  refine List.isPrefix_of_utf8Encode_append_eq_utf8Encode
    ⟨(text.toUTF8.data.toList.drop n).toArray⟩ ?_
  rw [String.utf8Encode_toList, String.utf8Encode_toList]
  refine ByteArray.ext (Array.toList_inj.mp ?_)
  rw [ByteArray.data_append, Array.toList_append]
  exact (congrArg (· ++ _) h).trans (List.take_append_drop n _)

theorem toList_of_zeros {text : String} {n : ℕ} (h : text.toUTF8.data.toList = zeros n) :
    text.toList = List.replicate n (byteChar 0) := by
  have hzero : String.utf8EncodeChar (byteChar 0) = [0] := by decide
  have hflat : (List.replicate n (byteChar 0)).flatMap String.utf8EncodeChar = zeros n := by
    rw [List.flatMap_replicate, hzero, zeros, List.flatten_replicate_singleton]
  have hbytes : text.toByteArray = (String.ofList (List.replicate n (byteChar 0))).toByteArray := by
    refine ByteArray.ext (Array.toList_inj.mp ?_)
    rw [String.toByteArray_ofList, List.utf8Encode, hflat]
    simpa using h
  rw [String.toByteArray_inj.mp hbytes, String.toList_ofList]

theorem plainPrimitives_strict : plainPrimitives.Strict where
  zeros n text record htext hrecord := by
    obtain ⟨-, rest, hbytes⟩ := EncryptedKey.codec_exact.deserialize_iff.mp hrecord
    rw [toList_of_zeros htext, List.map_replicate, charByte_byteChar] at hbytes
    have hversion : Codec.leBytes 4 record.version.toNat <+: List.replicate n 0 := by
      rw [hbytes]
      exact (List.prefix_append ..).trans (List.prefix_append ..)
    have hzero := (List.prefix_replicate_iff.mp hversion).2
    rw [Codec.leBytes_length] at hzero
    intro hone
    rw [hone] at hzero
    revert hzero
    decide
  part record part n hlen hsize hpart hn := by
    cases hrecord : plainPrimitives.fromJson part with
    | error e => exact ⟨e, rfl⟩
    | ok record' =>
        have hfits := EncryptedKey.codec_fits hlen hsize
        have hchars := (toList_prefix_of_take hpart).map charByte
        have hbytes : (fun b => charByte (byteChar b)) = id := funext charByte_byteChar
        have htext : (plainPrimitives.toJson record).toList.map charByte = EncryptedKey.codec.serialize record := by
          show (String.ofList _).toList.map charByte = _
          rw [String.toList_ofList, List.map_map, Function.comp_def, hbytes, List.map_id]
        rw [htext] at hchars
        have hall := (EncryptedKey.codec_exact.eq_of_prefix hfits hchars hrecord).1
        rw [← htext] at hall
        have hlist := (toList_prefix_of_take hpart).eq_of_length (by simpa using congrArg List.length hall)
        rw [String.toList_inj.mp hlist] at hpart
        have hcut := congrArg List.length hpart
        rw [List.length_take, min_eq_left hn.le] at hcut
        exact absurd hcut hn.ne'
end OmniMesh.Identity
