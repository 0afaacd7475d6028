import Mathlib.Data.List.Basic
import Mathlib.Logic.Function.Basic

/-!
# Files, their names and extensions

The stem and the extension of a file name as `std::path` splits it: at the last dot, unless nothing stands
before that dot. The files are a map from paths to contents, in which a rename is atomic.
-/

namespace Fs

abbrev FileName := List Char

namespace FileName

/-- What stands before and after the last dot, the first of them only when there is a dot. -/
def rsplitAtDot (file : FileName) : Option FileName × FileName :=
  (match file.reverse.dropWhile (· ≠ '.') with
    | [] => none
    | _ :: before => some before.reverse,
   (file.reverse.takeWhile (· ≠ '.')).reverse)

def rsplitFileAtDot (file : FileName) : Option FileName × Option FileName :=
  if file = ['.', '.'] then (some file, none)
  else
    match rsplitAtDot file with
    | (some [], _) => (some file, none)
    | (before, after) => (before, some after)

def fileStem (file : FileName) : Option FileName :=
  (rsplitFileAtDot file).1.or (rsplitFileAtDot file).2

def extension (file : FileName) : Option FileName :=
  (rsplitFileAtDot file).1.bind fun _ => (rsplitFileAtDot file).2

theorem rsplitAtDot_some {file before after : FileName} (h : rsplitAtDot file = (some before, after)) :
    file = before ++ '.' :: after := by
  have hsplit := List.takeWhile_append_dropWhile (p := (· ≠ '.')) (l := file.reverse)
  simp only [rsplitAtDot, Prod.mk.injEq] at h
  obtain ⟨hbefore, rfl⟩ := h
  split at hbefore
  · cases hbefore
  · rename_i c rest hdrop
    have hdot : c = '.' := by
      have := List.head_dropWhile_not (p := (· ≠ '.')) (l := file.reverse)
      simp_all
    cases hbefore
    rw [hdrop, hdot] at hsplit
    calc file = file.reverse.reverse := (List.reverse_reverse file).symm
      _ = (file.reverse.takeWhile (· ≠ '.') ++ '.' :: rest).reverse := by rw [hsplit]
      _ = rest.reverse ++ '.' :: (file.reverse.takeWhile (· ≠ '.')).reverse := by
        rw [List.reverse_append, List.reverse_cons, List.append_assoc, List.singleton_append]

theorem rsplitAtDot_none {file after : FileName} (h : rsplitAtDot file = (none, after)) :
    after = file := by
  have hsplit := List.takeWhile_append_dropWhile (p := (· ≠ '.')) (l := file.reverse)
  simp only [rsplitAtDot, Prod.mk.injEq] at h
  obtain ⟨hbefore, rfl⟩ := h
  split at hbefore
  · rename_i hdrop
    rw [hdrop, List.append_nil] at hsplit
    rw [hsplit, List.reverse_reverse]
  · cases hbefore

/-- How a name is split. -/
inductive Splits (file : FileName) : Option FileName × Option FileName → Prop
  | whole : Splits file (some file, none)
  | plain : Splits file (none, some file)
  | dotted {before after} : file = before ++ '.' :: after → Splits file (some before, some after)

theorem rsplitFileAtDot_splits (file : FileName) : Splits file (rsplitFileAtDot file) := by
  unfold rsplitFileAtDot
  split
  · exact .whole
  · cases hsplit : rsplitAtDot file with
    | mk before after =>
        cases before with
        | none =>
            cases rsplitAtDot_none hsplit
            exact .plain
        | some before =>
            cases before with
            | nil => exact .whole
            | cons c before => exact .dotted (rsplitAtDot_some hsplit)

/-- With an extension the name is the stem, a dot and the extension; without one it is the stem. -/
theorem fileStem_cases (file : FileName) :
    (extension file = none ∧ fileStem file = some file) ∨
      ∃ stem ext, extension file = some ext ∧ fileStem file = some stem ∧ file = stem ++ '.' :: ext := by
  have h := rsplitFileAtDot_splits file
  unfold extension fileStem
  generalize rsplitFileAtDot file = r at h ⊢
  cases h with
  | whole => exact .inl ⟨rfl, rfl⟩
  | plain => exact .inl ⟨rfl, rfl⟩
  | dotted hfile => exact .inr ⟨_, _, rfl, rfl, hfile⟩

end FileName

/-- A path by its directory and its last component, when that is a file name. -/
structure Path where
  parent : Option String
  fileName : Option FileName
  deriving DecidableEq

/-- Where the directory of a path is, seen from the working directory: no directory at all, `.` and the
absolute path of the working directory have one place. -/
abbrev Directories := Option String → Option String

namespace Path

/-- `Path::with_extension`, for an extension that is not empty. -/
def withExtension (self : Path) (ext : FileName) : Path :=
  match self.fileName.bind FileName.fileStem with
  | none => self
  | some stem => { self with fileName := some (stem ++ '.' :: ext) }

def extension (self : Path) : Option FileName := self.fileName.bind FileName.extension

/-- The place of the file itself: two paths are of one file when their places are the same. A directory may
be a symbolic link; a file is none. -/
def locate (dirs : Directories) (self : Path) : Path := { self with parent := dirs self.parent }

theorem locate_withExtension {dirs : Directories} {path : Path} {ext : FileName} :
    (path.withExtension ext).locate dirs = (path.locate dirs).withExtension ext := by
  obtain ⟨parent, fileName⟩ := path
  cases hstem : fileName.bind FileName.fileStem with
  | none => simp [withExtension, locate, hstem]
  | some stem => simp [withExtension, locate, hstem]

theorem withExtension_eq_self_iff {path : Path} {ext : FileName} :
    path.withExtension ext = path ↔ path.fileName = none ∨ path.extension = some ext := by
  obtain ⟨parent, fileName⟩ := path
  cases fileName with
  | none => simp [withExtension]
  | some file =>
      rcases FileName.fileStem_cases file with ⟨hext, hstem⟩ | ⟨stem, ext', hext, hstem, rfl⟩
      · simp [withExtension, extension, hext, hstem]
      · simp [withExtension, extension, hext, hstem, eq_comm]

end Path

/-! ## Files -/

abbrev Files := Path → Option (List UInt8)

/-- The files as the paths of a process name them. -/
def Files.seen (files : Files) (dirs : Directories) : Files :=
  fun path => files (path.locate dirs)

/-- The file under one path becomes the file under another one. -/
def Files.rename (files : Files) (old new : Path) : Files :=
  Function.update (Function.update files old none) new (files old)

def Files.write (files : Files) (path : Path) (contents : List UInt8) : Files :=
  Function.update files path (some contents)

def Files.remove (files : Files) (path : Path) : Files := Function.update files path none

@[simp] theorem Files.write_self (files : Files) (path : Path) (contents : List UInt8) :
    files.write path contents path = some contents := Function.update_self ..

theorem Files.write_of_ne {files : Files} {path path' : Path} {contents : List UInt8} (h : path' ≠ path) :
    files.write path contents path' = files path' := Function.update_of_ne h ..

theorem Files.eq_or_of_write {files : Files} {path path' : Path} {new contents : List UInt8}
    (h : files.write path new path' = some contents) : contents = new ∨ files path' = some contents := by
  by_cases hpath : path' = path
  · rw [hpath, write_self] at h
    exact .inl (Option.some.inj h).symm
  · rw [write_of_ne hpath] at h
    exact .inr h

@[simp] theorem Files.rename_new (files : Files) (old new : Path) : files.rename old new new = files old :=
  Function.update_self ..

theorem Files.rename_old {files : Files} {old new : Path} (h : old ≠ new) : files.rename old new old = none := by
  rw [rename, Function.update_of_ne h, Function.update_self]

/-- A rename makes no contents. -/
theorem Files.exists_of_rename {files : Files} {old new path : Path} {contents : List UInt8}
    (h : files.rename old new path = some contents) : ∃ path', files path' = some contents := by
  by_cases hnew : path = new
  · rw [hnew, rename_new] at h
    exact ⟨old, h⟩
  · rw [rename, Function.update_of_ne hnew] at h
    by_cases hold : path = old
    · rw [hold, Function.update_self] at h
      cases h
    · rw [Function.update_of_ne hold] at h
      exact ⟨path, h⟩

@[simp] theorem Files.remove_self (files : Files) (path : Path) : files.remove path path = none :=
  Function.update_self ..

theorem Files.remove_of_ne {files : Files} {path path' : Path} (h : path' ≠ path) :
    files.remove path path' = files path' := Function.update_of_ne h ..

end Fs
