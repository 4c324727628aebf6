import SideQuest.Model.Uploads
import SideQuest.Lib.Percent

-- Uploads are kept: whatever names the clients give, each file is written directly into the
-- upload directory and under a name that no other upload has.

namespace SideQuest

namespace Uploads

open LocalStorageDriver UploadsService

section Names

theorem slash_notMem_extname (path : List Char) : '/' ∉ extname path := by
  have hbase : '/' ∉ basename path := fun hmem => by
    simpa using List.mem_rtakeWhile_imp hmem
  unfold extname
  simp only
  split
  · exact List.not_mem_nil
  · rw [List.mem_cons]
    rintro (he | hmem)
    · cases he
    · exact hbase (List.rtakeWhile_suffix _ _ |>.subset hmem)

theorem slash_notMem_extension (input : UploadInput) : '/' ∉ extension input := by
  unfold extension
  split
  · unfold extensionFromMime
    split_ifs <;> decide
  · exact slash_notMem_extname _

theorem digitChar_inj {m n : ℕ} (hm : m < 16) (hn : n < 16) (h : m.digitChar = n.digitChar) :
    m = n := by
  have hall : ∀ i j : Fin 16, (i : ℕ).digitChar = (j : ℕ).digitChar → i = j := by decide
  exact congrArg Fin.val (hall ⟨m, hm⟩ ⟨n, hn⟩ h)

theorem hexByte_inj {a b : UInt8} (h : hexByte a = hexByte b) : a = b := by
  have ha : a.toNat < 256 := a.toNat_lt_size
  have hb : b.toNat < 256 := b.toNat_lt_size
  obtain ⟨hhigh, hrest⟩ := List.cons.inj h
  have hlow := (List.cons.inj hrest).1
  have hquotient := digitChar_inj (by omega) (by omega) hhigh
  have hremainder := digitChar_inj (Nat.mod_lt _ (by decide)) (Nat.mod_lt _ (by decide)) hlow
  exact UInt8.toNat_inj.mp (by omega)

theorem toHex_inj {bs bs' : List UInt8} (h : toHex bs = toHex bs') : bs = bs' := by
  induction bs generalizing bs' with
  | nil =>
      cases bs' with
      | nil => rfl
      | cons b' bs' => cases h
  | cons b bs ih =>
      cases bs' with
      | nil => cases h
      | cons b' bs' =>
          have happend : hexByte b ++ toHex bs = hexByte b' ++ toHex bs' := by
            simpa only [toHex, List.flatMap_cons] using h
          obtain ⟨hbyte, hrest⟩ := List.append_inj happend rfl
          rw [hexByte_inj hbyte, ih hrest]

theorem length_toHex (bs : List UInt8) : (toHex bs).length = 2 * bs.length := by
  simp [toHex, hexByte, List.length_flatMap, Nat.mul_comm]

theorem toDigits_inj {m n : ℕ} (h : Nat.toDigits 10 m = Nat.toDigits 10 n) : m = n := by
  have hvalue := congrArg (fun digits => Nat.ofDigitChars 10 digits 0) h
  simpa using hvalue

theorem notMem_toDigits {c : Char} (hc : c.isDigit = false) (n : ℕ) : c ∉ Nat.toDigits 10 n :=
  fun hmem => by
    have hdigit := Nat.isDigit_of_mem_toDigits (by decide) (by decide) hmem
    rw [hc] at hdigit
    cases hdigit

theorem slash_notMem_toHex (bs : List UInt8) : '/' ∉ toHex bs := by
  have hdigits : ∀ n : Fin 16, (n : ℕ).digitChar ≠ '/' := by decide
  intro hmem
  obtain ⟨b, _, hb⟩ := List.mem_flatMap.mp hmem
  have hlt : b.toNat < 256 := b.toNat_lt_size
  rcases List.mem_cons.mp hb with hhigh | hlow
  · exact hdigits ⟨b.toNat / 16, by omega⟩ hhigh.symm
  · exact hdigits ⟨b.toNat % 16, Nat.mod_lt _ (by decide)⟩ (List.mem_singleton.mp hlow).symm

variable (call call' : UploadCall)

theorem slash_notMem_filename : '/' ∉ filename call := by
  unfold filename
  rw [List.mem_append, List.mem_cons, List.mem_append]
  rintro (hmem | he | hmem | hmem)
  · exact notMem_toDigits (by decide) _ hmem
  · cases he
  · exact slash_notMem_toHex _ hmem
  · exact slash_notMem_extension _ hmem

theorem dash_mem_filename : '-' ∈ filename call := by
  simp [filename]

-- The name is one part of a path, and none that leads elsewhere.
theorem join_filename (dir : FilePath) : join dir (filename call) = dir ++ [filename call] := by
  have hdash := dash_mem_filename call
  have hone : (filename call).splitOn '/' = [filename call] :=
    List.splitOnP_eq_singleton fun c hc =>
      beq_false_of_ne (ne_of_mem_of_not_mem hc (slash_notMem_filename call))
  have hhere : ¬(filename call = [] ∨ filename call = ['.']) := by
    rintro (he | he) <;> rw [he] at hdash <;> revert hdash <;> decide
  have hup : filename call ≠ ['.', '.'] := fun he => by
    rw [he] at hdash
    revert hdash
    decide
  rw [join, hone, List.foldl_cons, List.foldl_nil, if_neg hhere, if_neg hup]

variable {call call'}

-- The time ends at the first dash, and the random bytes have a fixed length.
theorem filename_inj (h : filename call = filename call') :
    (call.now, call.random) = (call'.now, call'.random) := by
  have htime := congrArg (List.takeWhile (· ≠ '-')) h
  have hrest := congrArg (fun name => (List.dropWhile (· ≠ '-') name).tail) h
  simp only [filename, Percent.takeWhile_cut (notMem_toDigits (c := '-') rfl _),
    Percent.dropWhile_cut (notMem_toDigits (c := '-') rfl _)] at htime hrest
  have hlength : (toHex call.random).length = (toHex call'.random).length := by
    rw [length_toHex, length_toHex, call.random_length, call'.random_length]
  rw [toDigits_inj htime, toHex_inj (List.append_inj hrest hlength).1]

end Names

section Runs

variable (dir : FilePath) (maxMb : Option ℕ)

theorem writeFile_cases (fs : FileSystem) (path : FilePath) (buffer : List UInt8) :
    (∃ e, fs.writeFile path buffer = .error e) ∨
      ∃ fs', fs.writeFile path buffer = .ok fs' ∧ fs'.files path = some buffer ∧
        ∀ path', path' ≠ path → fs'.files path' = fs.files path' := by
  unfold FileSystem.writeFile
  split
  · exact .inl ⟨_, rfl⟩
  · split
    · exact .inl ⟨_, rfl⟩
    · exact .inr ⟨_, rfl, if_pos rfl, fun path' hne => if_neg hne⟩

-- What an accepted upload has come to.
structure Accepted (call : UploadCall) (fs : FileSystem) (stored : StoredObject)
    (fs' : FileSystem) : Prop where
  mime : call.input.mimeType ∈ DEFAULT_ALLOWED_MIMES
  size : call.input.buffer.length ≤ maxBytes maxMb
  stored : stored = ⟨String.ofList (filename call), "/uploads/" ++ String.ofList (filename call),
    call.input.buffer.length, call.input.mimeType⟩
  file : fs'.files (dir ++ [filename call]) = some call.input.buffer
  others : ∀ path, path ≠ dir ++ [filename call] → fs'.files path = fs.files path

-- An upload fails and changes nothing, or it writes its own file.
theorem upload_cases (call : UploadCall) (fs : FileSystem) :
    (∃ e, upload dir maxMb call fs = (.error e, fs)) ∨
      ∃ stored fs', upload dir maxMb call fs = (.ok stored, fs') ∧
        Accepted dir maxMb call fs stored fs' := by
  unfold upload
  split
  · exact .inl ⟨_, rfl⟩
  · rename_i hmime
    split
    · exact .inl ⟨_, rfl⟩
    · rename_i hsize
      unfold save
      dsimp only
      rw [join_filename]
      rcases writeFile_cases fs (dir ++ [filename call]) call.input.buffer with
        ⟨e, he⟩ | ⟨fs', he, hfile, hothers⟩
      · rw [he]
        exact .inl ⟨_, rfl⟩
      · rw [he]
        refine .inr ⟨_, fs', rfl, ?_⟩
        exact ⟨Classical.not_not.mp hmime, Nat.le_of_not_lt hsize, rfl, hfile, hothers⟩

theorem files_upload_ne {path : FilePath} {call : UploadCall} (h : path ≠ dir ++ [filename call])
    (fs : FileSystem) : (upload dir maxMb call fs).2.files path = fs.files path := by
  rcases upload_cases dir maxMb call fs with ⟨e, he⟩ | ⟨stored, fs', he, haccepted⟩
  · rw [he]
  · rw [he]
    exact haccepted.others path h

theorem files_uploads_ne {path : FilePath} {calls : List UploadCall}
    (h : ∀ call ∈ calls, path ≠ dir ++ [filename call]) (fs : FileSystem) :
    (uploads dir maxMb calls fs).files path = fs.files path := by
  induction calls generalizing fs with
  | nil => rfl
  | cons call calls ih =>
      have hrest := ih (fun c hc => h c (List.mem_cons_of_mem _ hc)) (upload dir maxMb call fs).2
      exact hrest.trans (files_upload_ne dir maxMb (h call List.mem_cons_self) fs)

theorem uploads_append (calls calls' : List UploadCall) (fs : FileSystem) :
    uploads dir maxMb (calls ++ calls') fs =
      uploads dir maxMb calls' (uploads dir maxMb calls fs) := List.foldl_append

-- Every accepted upload can be read back after the run, under the name in its answer and with
-- what was sent. Nothing but files directly in the upload directory has changed.
theorem uploads_kept (fs : FileSystem) {calls : List UploadCall}
    (hfresh : (calls.map fun c => (c.now, c.random)).Nodup) :
    (∀ before call after stored fs', calls = before ++ call :: after →
      upload dir maxMb call (uploads dir maxMb before fs) = (.ok stored, fs') →
        (uploads dir maxMb calls fs).files (dir ++ [stored.filename.toList]) =
            some call.input.buffer ∧
          stored.mimeType ∈ DEFAULT_ALLOWED_MIMES ∧
          stored.sizeBytes = call.input.buffer.length ∧ stored.sizeBytes ≤ maxBytes maxMb) ∧
    ∀ path, (uploads dir maxMb calls fs).files path ≠ fs.files path →
      ∃ name, path = dir ++ [name] ∧ '/' ∉ name ∧ name ≠ ['.', '.'] := by
  refine ⟨?_, fun path hchanged => ?_⟩
  · rintro before call after stored fs' rfl hupload
    rcases upload_cases dir maxMb call (uploads dir maxMb before fs) with
      ⟨e, he⟩ | ⟨stored', fs'', he, haccepted⟩
    · rw [he] at hupload
      cases hupload
    have hanswer := he.symm.trans hupload
    obtain ⟨rfl, rfl⟩ : stored' = stored ∧ fs'' = fs' := by
      cases hanswer
      exact ⟨rfl, rfl⟩
    obtain rfl := haccepted.stored
    refine ⟨?_, haccepted.mime, rfl, haccepted.size⟩
    rw [List.map_append, List.map_cons, List.nodup_middle, List.nodup_cons] at hfresh
    have hothers : ∀ c ∈ after, dir ++ [filename call] ≠ dir ++ [filename c] := fun c hc hsame => by
      have hname := List.cons.inj (List.append_cancel_left hsame)
      refine hfresh.1 (List.mem_append_right _ ?_)
      exact filename_inj hname.1 ▸ List.mem_map_of_mem hc
    have hname : (String.ofList (filename call)).toList = filename call := String.toList_ofList
    show (uploads dir maxMb (before ++ call :: after) fs).files
      (dir ++ [(String.ofList (filename call)).toList]) = _
    rw [hname, uploads_append]
    show (uploads dir maxMb after (upload dir maxMb call (uploads dir maxMb before fs)).2).files _ = _
    rw [files_uploads_ne dir maxMb hothers, he]
    exact haccepted.file
  · by_contra hnone
    refine hchanged (files_uploads_ne dir maxMb (fun call _ hpath => hnone ?_) fs)
    refine ⟨filename call, hpath, slash_notMem_filename call, fun he => ?_⟩
    have hdash := dash_mem_filename call
    rw [he] at hdash
    revert hdash
    decide

end Runs

-- Two uploads in the same millisecond; the first one's name asks for another directory.
def climbing : UploadCall where
  input := ⟨[1, 2, 3], "../../etc/cron.d/job.png", "image/png"⟩
  now := 1000
  random := [0, 1, 2, 3, 4, 5, 6, 255]
  random_length := rfl

def plain : UploadCall where
  input := ⟨[4], "photo", "image/webp"⟩
  now := 1000
  random := [0, 1, 2, 3, 4, 5, 6, 254]
  random_length := rfl

def uploadDir : FilePath := ["app".toList, "uploads".toList]

-- A name that no file can have.
def nul : UploadCall where
  input := ⟨[5], String.ofList ['a', '.', Char.ofNat 0], "image/png"⟩
  now := 1001
  random := [0, 1, 2, 3, 4, 5, 6, 255]
  random_length := rfl

theorem uploads_kept_same_moment :
    (uploads uploadDir none [climbing, plain, nul] ⟨fun _ => none⟩).files
      (uploadDir ++ ["1000-00010203040506ff.png".toList]) = some [1, 2, 3] :=
  ((uploads_kept uploadDir none ⟨fun _ => none⟩ (by decide)).1 [] climbing [plain, nul]
    ⟨"1000-00010203040506ff.png", "/uploads/1000-00010203040506ff.png", 3, "image/png"⟩ _ rfl rfl).1

end Uploads

end SideQuest
