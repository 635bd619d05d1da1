import SabApp.RecordingPlay

/-!
# What was recorded is what is shown (NetApi.c)

A file that a recording saved has its header, a table that names the places of its key frames, and its
frames. The player takes each of them as it was recorded. Behind the last one it goes to the entry that
no key frame made: in a table that was used before, that is an entry of another file.
-/

namespace SabApp

namespace Recording

namespace Player

/-! ## Frames shown as they were recorded -/

/-- The player takes the frame as it is. -/
structure Plays (f : Frame) : Prop where
  some_body : 0 < word32 f.data 0
  fits : word32 f.data 0 ≤ 500 * 1024 - 32
  picture : ¬tooLarge f.data
  no_end : shownType f.data ≠ 255

theorem word16_take {bs : List UInt8} {n i : ℕ} (h : i + 2 ≤ n) (hn : n ≤ bs.length) :
    word16 (bs.take n) i = word16 bs i := by
  have happ : word16 (bs.take n ++ bs.drop n) i = word16 (bs.take n) i :=
    word16_append_left (by rw [List.length_take_of_le hn]; exact h)
  rw [List.take_append_drop] at happ
  exact happ.symm

/-- A frame at the position is shown. -/
theorem turn_shows {p : Player} {pre post : List UInt8} {f : Frame} (hf : Plays f)
    (hbytes : p.fd.bytes = pre ++ f.data ++ post) (hpos : p.fd.pos = pre.length) (heof : p.fd.eof = false) :
    ∃ buf, p.turn = (.shows f.data, ⟨⟨p.fd.bytes, (pre ++ f.data).length, false⟩, p.no + keys [f], buf⟩) := by
  have hlen := f.length
  have hsome := hf.some_body
  have hhead : (f.data.take 32).length = 32 := List.length_take_of_le (by omega)
  have hbody : (f.data.drop 32).length = word32 f.data 0 := by rw [List.length_drop]; omega
  have hcut : f.data.take 32 ++ f.data.drop 32 = f.data := List.take_append_drop 32 f.data
  have hsplit : p.fd.bytes = pre ++ f.data.take 32 ++ (f.data.drop 32 ++ post) := by
    rw [hbytes, List.append_assoc pre, List.append_assoc pre, ← List.append_assoc (f.data.take 32), hcut]
  have hsplit' : p.fd.bytes = pre ++ f.data.take 32 ++ f.data.drop 32 ++ post := by
    rw [hbytes, List.append_assoc pre (f.data.take 32), hcut]
  have hread := File.read_eq hsplit hpos heof
  have hread' := File.read_eq (f := ⟨p.fd.bytes, (pre ++ f.data.take 32).length, false⟩) hsplit' rfl rfl
  have hword : word32 (f.data.take 32) 0 = word32 f.data 0 := word32_take (by decide) (by omega)
  have hlarge : ¬tooLarge (f.data.take 32) := by
    unfold tooLarge
    rw [word16_take (by decide) (by omega), word16_take (by decide) (by omega)]
    exact hf.picture
  have htype : shownType (f.data.take 32) = shownType f.data := by
    unfold shownType
    have happ : byteAt (f.data.take 32 ++ f.data.drop 32) 20 = byteAt (f.data.take 32) 20 :=
      byteAt_append_left (by omega)
    rw [← happ, hcut]
  have hkeys : keys [f] = if shownType f.data = 1 then 1 else 0 := by
    rw [keys_cons]
    by_cases hkey : shownType f.data = 1
    · rw [if_pos hkey, if_pos (show f.isKey = true from decide_eq_true hkey)]
      rfl
    · rw [if_neg hkey, if_neg (fun h : f.isKey = true => hkey (of_decide_eq_true h))]
      rfl
  rw [hhead] at hread
  rw [hbody, List.append_assoc, hcut] at hread'
  unfold turn
  rw [heof, if_neg Bool.false_ne_true, hread]
  dsimp only
  rw [if_neg (fun hne => hne hhead), if_neg hlarge, hword,
    if_neg (by have := hf.fits; omega), hread']
  dsimp only
  rw [if_neg (fun hne => hne hbody), hcut, htype, hkeys]
  split
  · exact ⟨_, rfl⟩
  · exact ⟨_, rfl⟩

/-- The player behind the frames. -/
def behindFrames (p : Player) (pre : List UInt8) (fs : List Frame) (buf : List UInt8) : Player :=
  ⟨⟨p.fd.bytes, (pre ++ data fs).length, false⟩, p.no + keys fs, buf⟩

theorem play_frames {fs : List Frame} (hfs : ∀ f ∈ fs, Plays f) {p : Player} {pre post : List UInt8}
    (hbytes : p.fd.bytes = pre ++ data fs ++ post) (hpos : p.fd.pos = pre.length) (heof : p.fd.eof = false) (n : ℕ) :
    ∃ buf, p.play (fs.length + n) = (fs.map (·.data) ++ ((p.behindFrames pre fs buf).play n).1,
      ((p.behindFrames pre fs buf).play n).2) := by
  induction fs generalizing p pre with
  | nil =>
    have hp : p.behindFrames pre [] p.buf = p := by
      obtain ⟨⟨bytes, pos, eof⟩, no, buf⟩ := p
      dsimp only at hpos heof
      subst hpos heof
      rw [behindFrames, data, List.flatMap_nil, List.append_nil]
      rfl
    refine ⟨p.buf, ?_⟩
    rw [hp, List.length_nil, Nat.zero_add]
    rfl
  | cons f fs ih =>
    have hdata : data (f :: fs) = f.data ++ data fs := List.flatMap_cons
    have hf := hfs f List.mem_cons_self
    have hfirst : p.fd.bytes = pre ++ f.data ++ (data fs ++ post) := by
      rw [hbytes, hdata]
      simp only [List.append_assoc]
    have hrest : p.fd.bytes = pre ++ f.data ++ data fs ++ post := by
      rw [hbytes, hdata, ← List.append_assoc pre]
    obtain ⟨buf₁, hturn⟩ := turn_shows hf hfirst hpos heof
    obtain ⟨buf, hplay⟩ := ih (fun g hg => hfs g (List.mem_cons_of_mem _ hg))
      (p := ⟨⟨p.fd.bytes, (pre ++ f.data).length, false⟩, p.no + keys [f], buf₁⟩) hrest rfl rfl
    have hsame : behindFrames ⟨⟨p.fd.bytes, (pre ++ f.data).length, false⟩, p.no + keys [f], buf₁⟩ (pre ++ f.data) fs
        buf = p.behindFrames pre (f :: fs) buf := by
      have hkeys : keys (f :: fs) = keys [f] + keys fs := keys_append [f] fs
      rw [behindFrames, behindFrames, hdata, hkeys, Nat.add_assoc, List.append_assoc]
    rw [hsame] at hplay
    refine ⟨buf, ?_⟩
    rw [List.length_cons, Nat.add_right_comm, play, hturn]
    dsimp only
    rw [if_neg hf.no_end, hplay]
    rfl

/-- Behind the last frame the entry behind the last one is looked up. -/
theorem turn_end {p : Player} (hpos : p.fd.bytes.length ≤ p.fd.pos) (heof : p.fd.eof = false) :
    ∃ f buf, f.bytes = p.fd.bytes ∧ p.turn = Player.skip ⟨f, p.no, buf⟩ := by
  have hgot : (p.fd.read 32).1 = [] := File.got_end hpos 32
  refine ⟨(p.fd.read 32).2, File.overlay p.buf 0 (p.fd.read 32).1, rfl, ?_⟩
  unfold turn
  rw [heof, if_neg Bool.false_ne_true]
  dsimp only
  rw [hgot, if_pos (by decide)]

end Player

/-! ## A recording played again -/

theorem entries_get {before rest : List Frame} {f : Frame} (hkey : f.isKey = true) (pos no : ℕ) :
    (entries pos no (before ++ f :: rest))[keys before]? = some ⟨.ofNat (no + keys before), f.rate,
      .ofNat (pos + (data before).length), .ofNat f.data.length, f.sec⟩ := by
  rw [entries_append, List.getElem?_append_right (Nat.le_of_eq (entries_length _ _ _)), entries_length, Nat.sub_self,
    entries, if_pos hkey]
  rfl

/-- An entry is that of a key frame. -/
theorem exists_of_lt_keys {fs : List Frame} {i : ℕ} (h : i < keys fs) :
    ∃ before f rest, fs = before ++ f :: rest ∧ f.isKey = true ∧ keys before = i := by
  induction fs generalizing i with
  | nil => exact absurd h (Nat.not_lt_zero i)
  | cons g fs ih =>
    rw [keys_cons] at h
    cases hkey : g.isKey with
    | true =>
      rw [hkey, if_pos rfl] at h
      cases i with
      | zero => exact ⟨[], g, fs, rfl, hkey, rfl⟩
      | succ i =>
        obtain ⟨before, f, rest, rfl, hf, hi⟩ := ih (Nat.lt_of_succ_lt_succ h)
        exact ⟨g :: before, f, rest, rfl, hf, by rw [keys_cons, hkey, if_pos rfl, hi]⟩
    | false =>
      rw [hkey, if_neg Bool.false_ne_true] at h
      obtain ⟨before, f, rest, rfl, hf, hi⟩ := ih h
      exact ⟨g :: before, f, rest, rfl, hf, by rw [keys_cons, hkey, if_neg Bool.false_ne_true, hi, Nat.add_zero]⟩

/-- A file of frames, its table, and frames that can be shown. -/
structure Image (behind : Field 54) (info : Info) (fs : List Frame) (b : List UInt8) : Prop where
  bytes : b = fileHeader behind ++ info.bytes ++ data fs
  num : info.num = keys fs
  lists : ∀ i e, (entries dataStart 0 fs)[i]? = some e → info.item i = e
  room : keys fs < maxItems
  size : b.length < 2147483648
  plays : ∀ f ∈ fs, Player.Plays f

/-- The frames from the first key frame of a time on, or all of them where there is none. -/
inductive From (start : UInt32) (fs : List Frame) : List Frame → List Frame → Prop
  | found (before rest : List Frame) (f : Frame) (split : fs = before ++ f :: rest) (key : f.isKey = true)
      (time : start ≤ f.sec) (first : ∀ g ∈ before, g.isKey = true → g.sec < start) : From start fs before (f :: rest)
  | none (late : ∀ g ∈ fs, g.isKey = true → g.sec < start) : From start fs [] fs

/-- The frames of a file from a time on are shown as they are, then `tail`, and so it ends. -/
def Replays (f : File) (start : UInt32) (buf : List UInt8) (fs : List Frame) (tail : List (List UInt8))
    (ending : Turn) :
    Prop :=
  ∃ p before rest, localRecordPlay f start buf = .plays p ∧ From start fs before rest ∧
    ∀ n, p.left < n → p.play n = (rest.map (·.data) ++ tail, some ending)

theorem From.split {start : UInt32} {fs before rest : List Frame} (h : From start fs before rest) :
    fs = before ++ rest := by
  cases h with
  | found _ _ f split key time first => exact split
  | none => rfl

theorem findEntry_spec (table : List UInt8) (start : UInt32) {n i : ℕ} (h : i + n ≤ maxItems) :
    (findEntry table start n i = some none ∧ ∀ j, i ≤ j → j < i + n → ¬start ≤ tableTime table j) ∨
      ∃ k, findEntry table start n i = some (some k) ∧ i ≤ k ∧ k < i + n ∧ start ≤ tableTime table k ∧
        ∀ j, i ≤ j → j < k → ¬start ≤ tableTime table j := by
  induction n generalizing i with
  | zero => exact .inl ⟨rfl, fun j _ _ => by omega⟩
  | succ n ih =>
    rw [findEntry, if_neg (by omega)]
    by_cases htime : start ≤ tableTime table i
    · rw [if_pos htime]
      exact .inr ⟨i, rfl, Nat.le_refl i, by omega, htime, fun j _ _ => by omega⟩
    · rw [if_neg htime]
      have hhere : ∀ j, i ≤ j → ¬i + 1 ≤ j → ¬start ≤ tableTime table j := by
        intro j h₁ h₂
        rwa [show j = i by omega]
      rcases ih (i := i + 1) (by omega) with ⟨hfind, hall⟩ | ⟨k, hfind, hik, hkn, hk, hall⟩
      · refine .inl ⟨hfind, fun j h₁ h₂ => ?_⟩
        by_cases hij : i + 1 ≤ j
        · exact hall j hij (by omega)
        · exact hhere j h₁ hij
      · refine .inr ⟨k, hfind, by omega, by omega, hk, fun j h₁ h₂ => ?_⟩
        by_cases hij : i + 1 ≤ j
        · exact hall j hij h₂
        · exact hhere j h₁ hij

namespace Image

variable {behind : Field 54} {info : Info} {fs : List Frame} {f : File}

theorem complete (h : Image behind info fs f.bytes) : Complete f.bytes := by
  rw [Complete, h.bytes, List.length_append, List.length_append, fileHeader_length, info.bytes_length, dataStart]
  exact Nat.le_add_right _ _

theorem table (h : Image behind info fs f.bytes) : (f.bytes.drop 76).take 12288 = info.bytes := by
  rw [h.bytes, List.append_assoc, List.drop_left' (fileHeader_length behind), List.take_left' info.bytes_length]

theorem tableNum_eq (h : Image behind info fs f.bytes) : tableNum info.bytes = keys fs := by
  have hnum := h.num
  have hroom := h.room
  rw [info.tableNum_bytes (by omega) (by omega), hnum]

/-- The entry of a key frame has its time and its place. -/
theorem entry (h : Image behind info fs f.bytes) {before rest : List Frame} {g : Frame} (hfs : fs = before ++ g :: rest)
    (hkey : g.isKey = true) : tableTime info.bytes (keys before) = g.sec ∧
      (tableOffset info.bytes (keys before)).toNat = dataStart + (data before).length := by
  have hget := h.lists (keys before) _ (by rw [hfs]; exact entries_get hkey dataStart 0)
  have hkeys : keys fs = keys before + keys (g :: rest) := by rw [hfs, keys_append]
  have hroom := h.room
  have hsize := h.size
  have hle : (data before).length ≤ (data fs).length := by
    rw [hfs, data_append, List.length_append]
    exact Nat.le_add_right _ _
  rw [h.bytes, List.length_append, List.length_append, fileHeader_length, info.bytes_length] at hsize
  rw [info.tableTime_bytes (by omega), info.tableOffset_bytes (by omega), hget]
  refine ⟨rfl, UInt32.toNat_ofNat_of_lt' ?_⟩
  show dataStart + (data before).length < 4294967296
  unfold dataStart
  omega

/-- The player starts at the first key frame of the time. -/
theorem opened (h : Image behind info fs f.bytes) (start : UInt32) (buf : List UInt8) :
    ∃ before rest, From start fs before rest ∧ localRecordPlay f start buf =
      .plays ⟨⟨f.bytes, dataStart + (data before).length, false⟩, keys before, buf⟩ := by
  have hroom := h.room
  have hnum : (tableNum info.bytes).toNat = keys fs := by rw [h.tableNum_eq, Int.toNat_natCast]
  rw [localRecordPlay, readTable_complete h.complete, h.table]
  dsimp only
  rw [hnum]
  rcases findEntry_spec info.bytes start (n := keys fs) (i := 0) (by omega) with
    ⟨hfind, hall⟩ | ⟨k, hfind, -, hk, htime, hall⟩
  · refine ⟨[], fs, .none fun g hg hkey => ?_, by rw [hfind]; rfl⟩
    obtain ⟨before, rest, hfs⟩ := List.append_of_mem hg
    have hlt : keys before < keys fs := by
      rw [hfs, keys_append, keys_cons, hkey, if_pos rfl]
      omega
    have hlate := hall (keys before) (Nat.zero_le _) (by omega)
    rw [(h.entry hfs hkey).1] at hlate
    exact UInt32.not_le.mp hlate
  · obtain ⟨before, g, rest, hfs, hkey, rfl⟩ := exists_of_lt_keys (by omega : k < keys fs)
    obtain ⟨hsec, hplace⟩ := h.entry hfs hkey
    rw [hsec] at htime
    refine ⟨before, g :: rest, .found _ _ g hfs hkey htime fun g' hg' hkey' => ?_, ?_⟩
    · obtain ⟨b, r, hb⟩ := List.append_of_mem hg'
      have hfs' : fs = b ++ g' :: (r ++ g :: rest) := by rw [hfs, hb, List.append_assoc, List.cons_append]
      have hlt : keys b < keys before := by
        rw [hb, keys_append, keys_cons, hkey', if_pos rfl]
        omega
      have hlate := hall (keys b) (Nat.zero_le _) hlt
      rw [(h.entry hfs' hkey').1] at hlate
      exact UInt32.not_le.mp hlate
    · have hsize := h.size
      rw [h.bytes, List.length_append, List.length_append, fileHeader_length, info.bytes_length] at hsize
      have hle : (data before).length ≤ (data fs).length := by
        rw [hfs, data_append, List.length_append]
        exact Nat.le_add_right _ _
      have hlt : dataStart + (data before).length < 2147483648 := by
        unfold dataStart
        omega
      rw [hfind]
      dsimp only
      rw [if_neg (by omega), seekTo, if_pos (by rw [hplace]; exact hlt), hplace]
      rfl

/-- The header is no frame: its text says a picture that is too large. -/
theorem header_large (behind : Field 54) (bs : List UInt8) : Player.tooLarge ((fileHeader behind ++ bs).take 32) := by
  have h₁ : ((fileHeader behind ++ bs).take 32).getD 16 0 = 0x35 := rfl
  have h₂ : ((fileHeader behind ++ bs).take 32).getD 17 0 = 0x36 := rfl
  have h₃ : ((fileHeader behind ++ bs).take 32).getD 18 0 = 0x37 := rfl
  have h₄ : ((fileHeader behind ++ bs).take 32).getD 19 0 = 0x38 := rfl
  rw [Player.tooLarge, word16, word16, byteAt, byteAt, byteAt, byteAt, h₁, h₂, h₃, h₄]
  decide

end Image

section
variable {behind : Field 54} {info : Info} {fs : List Frame} {f : File}

/-- From the header the loop is left, where there is no entry any more. -/
theorem play_header (h : Image behind info fs f.bytes) (buf : List UInt8) (n : ℕ) :
    Player.play (n + 1) ⟨⟨f.bytes, 0, false⟩, keys fs + 1, buf⟩ = ([], some .leaves) := by
  have hgot : (⟨f.bytes, 0, false⟩ : File).got 32 = (fileHeader behind ++ (info.bytes ++ data fs)).take 32 := by
    rw [File.got, List.drop_zero, h.bytes, List.append_assoc]
  have hlen : ((⟨f.bytes, 0, false⟩ : File).read 32).1.length = 32 := by
    have hcomplete := h.complete
    show ((⟨f.bytes, 0, false⟩ : File).got 32).length = 32
    rw [File.got, List.length_take, List.drop_zero]
    unfold Complete dataStart at hcomplete
    show min 32 f.bytes.length = 32
    omega
  have hlarge : Player.tooLarge ((⟨f.bytes, 0, false⟩ : File).read 32).1 := by
    show Player.tooLarge ((⟨f.bytes, 0, false⟩ : File).got 32)
    rw [hgot]
    exact Image.header_large behind _
  have hturn : ∃ p', Player.turn ⟨⟨f.bytes, 0, false⟩, keys fs + 1, buf⟩ = (.leaves, p') := by
    unfold Player.turn
    rw [if_neg Bool.false_ne_true]
    dsimp only
    rw [if_neg (fun hne => hne hlen), if_pos hlarge]
    unfold Player.skip seekIframe
    rw [readTable_complete (f := ((⟨f.bytes, 0, false⟩ : File).read 32).2) h.complete]
    dsimp only
    rw [File.read_bytes, h.table, h.tableNum_eq, if_pos (by omega)]
    exact ⟨_, rfl⟩
  obtain ⟨p', hp'⟩ := hturn
  rw [Player.play, hp']

/-- Behind the last frame the player goes to the entry behind the last one. -/
theorem turn_last (h : Image behind info fs f.bytes) (buf : List UInt8) {pos : ℕ} (hpos : f.bytes.length ≤ pos) :
    ∃ buf', Player.turn ⟨⟨f.bytes, pos, false⟩, keys fs, buf⟩ = (.again,
      ⟨seekTo ⟨f.bytes, dataStart, false⟩ (info.item (keys fs)).offset, keys fs + 1, buf'⟩) := by
  obtain ⟨g, buf', hg, hturn⟩ := Player.turn_end (p := ⟨⟨f.bytes, pos, false⟩, keys fs, buf⟩) hpos rfl
  have hgc : Complete g.bytes := hg ▸ h.complete
  refine ⟨buf', ?_⟩
  rw [hturn]
  unfold Player.skip seekIframe
  rw [readTable_complete hgc]
  dsimp only
  rw [hg, h.table, h.tableNum_eq, if_neg (by omega), if_neg (Nat.not_le.mpr h.room), info.tableOffset_bytes h.room]

/-- The frames of a file with its table are shown as they were recorded; what follows comes from the entry behind the
last one, and is nothing where that is empty. -/
theorem replays_image (h : Image behind info fs f.bytes) (start : UInt32) (buf : List UInt8) :
    ∃ tail ending, Replays f start buf fs tail ending ∧ (ending = .leaves ∨ ending = .wild) ∧
      ((info.item (keys fs)).offset = 0 → tail = [] ∧ ending = .leaves) := by
  obtain ⟨before, rest, hfrom, hopen⟩ := h.opened start buf
  have hsplit := hfrom.split
  have hfs : data fs = data before ++ data rest := by rw [hsplit, data_append]
  have hpre : (fileHeader behind ++ info.bytes ++ data before).length = dataStart + (data before).length := by
    rw [List.length_append, List.length_append, fileHeader_length, info.bytes_length, dataStart]
  have hlive : Player.Live ⟨⟨f.bytes, dataStart + (data before).length, false⟩, keys before, buf⟩ := ⟨h.complete, rfl⟩
  generalize hp : (⟨⟨f.bytes, dataStart + (data before).length, false⟩, keys before, buf⟩ : Player) = p at hopen hlive
  have hbytes : p.fd.bytes = fileHeader behind ++ info.bytes ++ data before ++ data rest ++ [] := by
    rw [← hp, h.bytes, hfs, List.append_nil, ← List.append_assoc]
  have hpos : p.fd.pos = (fileHeader behind ++ info.bytes ++ data before).length := by rw [← hp, hpre]
  have hplays : ∀ g ∈ rest, Player.Plays g := fun g hg => h.plays g (by rw [hsplit]; exact List.mem_append_right _ hg)
  have heof : p.fd.eof = false := hlive.unmarked
  have hfd : p.fd.bytes = f.bytes := by rw [← hp]
  have hno : p.no + keys rest = keys fs := by rw [← hp, hsplit, keys_append]
  have hend : (fileHeader behind ++ info.bytes ++ data before ++ data rest).length = f.bytes.length := by
    rw [h.bytes, hfs, ← List.append_assoc]
  -- what is left behind the frames does not depend on the memory
  let n₀ := p.left + Player.left ⟨⟨f.bytes, f.bytes.length, false⟩, keys fs, []⟩ + 2
  obtain ⟨buf₁, hshown⟩ := Player.play_frames hplays hbytes hpos heof n₀
  have hp₁ : p.behindFrames (fileHeader behind ++ info.bytes ++ data before) rest buf₁ =
      ⟨⟨f.bytes, f.bytes.length, false⟩, keys fs, buf₁⟩ := by
    rw [Player.behindFrames, hend, hfd, hno]
  rw [hp₁] at hshown
  have hlive₁ : Player.Live ⟨⟨f.bytes, f.bytes.length, false⟩, keys fs, buf₁⟩ := ⟨h.complete, rfl⟩
  have hleft₁ : Player.left ⟨⟨f.bytes, f.bytes.length, false⟩, keys fs, buf₁⟩ < n₀ := by
    show Player.left ⟨⟨f.bytes, f.bytes.length, false⟩, keys fs, []⟩ < n₀
    omega
  obtain ⟨ending, hending, hways⟩ : ∃ e, (Player.play n₀ ⟨⟨f.bytes, f.bytes.length, false⟩, keys fs, buf₁⟩).2 = some e ∧
      (e = .leaves ∨ e = .wild) := by
    rcases Player.play_ends hlive₁ hleft₁ with hleaves | hwild
    · exact ⟨_, hleaves, .inl rfl⟩
    · exact ⟨_, hwild, .inr rfl⟩
  rw [hending] at hshown
  refine ⟨(Player.play n₀ ⟨⟨f.bytes, f.bytes.length, false⟩, keys fs, buf₁⟩).1, ending,
    ⟨p, before, rest, hopen, hfrom, fun n hn => ?_⟩, hways, fun hzero => ?_⟩
  · rw [← hshown]
    exact Player.play_enough hlive hn (by omega)
  · obtain ⟨buf₂, hturn⟩ := turn_last h buf₁ (Nat.le_refl f.bytes.length)
    have hplay : Player.play n₀ ⟨⟨f.bytes, f.bytes.length, false⟩, keys fs, buf₁⟩ = ([], some .leaves) := by
      rw [Player.play, hturn, hzero]
      exact play_header h buf₂ _
    rw [hplay] at hending ⊢
    exact ⟨rfl, (Option.some.inj hending).symm⟩

end

/-! ## What was recorded is what is shown -/

section
variable {behind : Field 54} {dev : Field 140} {av av' : Recorder} {t : Tape} {seg : Segment} {file : Saved}

/-- A segment that has a table for its frames, and frames that can be shown. -/
structure Segment.Playable (seg : Segment) : Prop where
  base : seg.base = dataStart
  room : keys seg.frames < maxItems
  size : dataStart + (data seg.frames).length < 2147483648
  plays : ∀ f ∈ seg.frames, Player.Plays f

theorem Segment.Playable.image {info : Info} {b : List UInt8} (hseg : seg.Playable) (hnum : info.num = keys seg.frames)
    (hlists : info.Lists seg) (hbytes : b = fileHeader behind ++ info.bytes ++ seg.raw.drop dataStart) :
    Image behind info seg.frames b := by
  have hraw : seg.raw.drop dataStart = data seg.frames := by
    rw [Segment.raw, hseg.base, List.drop_left' List.length_replicate]
  rw [hraw] at hbytes
  have hsize := hseg.size
  refine ⟨hbytes, hnum, ?_, hseg.room, ?_, hseg.plays⟩
  · intro i e he
    refine hlists i e ?_
    rw [Segment.entries, hseg.base, he]
  · rw [hbytes, List.length_append, List.length_append, fileHeader_length, info.bytes_length]
    unfold dataStart at hsize
    omega

/-- No pause since the last frame. -/
def Steady : Int32 → List Frame → Prop
  | _, [] => True
  | last, f :: fs => ¬gap last f.sec ∧ Steady f.sec.toInt32 fs

/-- The time of the last key frame. -/
def lastKey (sec : Int32) (fs : List Frame) : Int32 :=
  fs.foldl (fun sec f => if f.isKey then f.sec.toInt32 else sec) sec

/-- Nothing stands in the table behind its last entry. -/
def Fresh (av : Recorder) : Prop := ∀ i : ℕ, (i : ℤ) > av.info.num → av.info.item i = noItem

theorem writeFrame_info {f : Frame} (h : writeFrame f av = some av') : av'.info = av.info := by
  unfold writeFrame onFile at h
  split at h
  · split at h
    · exact Option.some.inj h ▸ rfl
    · cases h
  · exact Option.some.inj h ▸ rfl

theorem noteKey_fresh {f : Frame} (hav : Fresh av) (h : (noteKey f av).bind (writeFrame f) = some av') : Fresh av' := by
  obtain ⟨av₁, hnote, hwrite⟩ := Option.bind_eq_some_iff.mp h
  rw [Fresh, writeFrame_info hwrite]
  unfold noteKey onFile at hnote
  split at hnote
  · rw [← Option.some.inj hnote]
    intro i hi
    dsimp only at hi ⊢
    rw [if_neg (by omega)]
    exact hav i (by omega)
  · cases hnote

theorem recordFrame_fresh {f : Frame} (hav : Fresh av) (hnum : av.info.num < maxItems - 1)
    (h : recordFrame behind true f av = some av') : Fresh av' := by
  unfold recordFrame at h
  dsimp only at h
  split at h
  · obtain ⟨av₁, hbegin, hrest⟩ := Option.bind_eq_some_iff.mp h
    obtain ⟨hav₁, hnum₁⟩ : Fresh av₁ ∧ av₁.info.num = av.info.num := by
      split at hbegin
      · unfold beginFile onFile at hbegin
        split at hbegin
        · rw [← Option.some.inj hbegin]
          exact ⟨hav, rfl⟩
        · cases hbegin
      · rw [← Option.some.inj hbegin]
        exact ⟨hav, rfl⟩
    rw [if_neg (by omega)] at hrest
    exact noteKey_fresh hav₁ hrest
  · rw [Fresh, writeFrame_info h]
    exact hav

theorem localRecord_fresh {f : Frame} (ht : Timed av t) (hgap : ¬gap (t.last.getD f.sec.toInt32) f.sec) (hav : Fresh av)
    (hnum : av.info.num < maxItems - 1) (h : localRecord behind true av f = some av') : Fresh av' := by
  unfold localRecord at h
  unfold Timed at ht
  dsimp only at h
  cases hflag : av.firstFlag with
  | true =>
    rw [hflag, if_pos rfl] at ht
    rw [ht, Option.getD_some] at hgap
    rw [hflag, if_pos rfl, if_neg hgap] at h
    exact recordFrame_fresh hav hnum h
  | false =>
    rw [hflag, if_neg Bool.false_ne_true] at ht
    rw [ht, Option.getD_none] at hgap
    rw [hflag, if_neg Bool.false_ne_true, if_neg hgap] at h
    have hlater : Fresh { av with firstFlag := true, lastTime := f.sec.toInt32 } := hav
    exact recordFrame_fresh hlater hnum h

theorem gap_self (f : Frame) : ¬gap f.sec.toInt32 f.sec := by
  have hzero : f.sec.toInt32.toUInt32 - f.sec = 0 := UInt32.sub_self _
  rw [gap, hzero]
  decide

/-- A frame that follows without a pause goes to the file under way, if the table has room for it. -/
theorem take_steady {f : Frame} {last : Int32} (hlast : t.last = some last) (hcur : t.current = some seg)
    (hgap : ¬gap last f.sec) (hroom : keys seg.frames < maxItems) :
    t.take f = ⟨some f.sec.toInt32, some { seg with
      ends := if f.isKey then f.sec.toInt32 else seg.ends
      frames := seg.frames ++ [f] }, t.done⟩ := by
  unfold Tape.take
  dsimp only
  rw [hlast, Option.getD_some, if_neg hgap, Tape.push, hcur]
  dsimp only
  by_cases hkey : f.isKey = true
  · rw [if_pos hkey, if_neg (Nat.not_le.mpr hroom), if_pos hkey]
  · rw [if_neg hkey, if_neg hkey]

/-- A recording goes on in its file, and nothing comes to stand behind the last entry. -/
theorem recordAll_steady {fs : List Frame} {last : Int32} (h : Follows behind av t) (ht : Timed av t)
    (hlast : t.last = some last) (hcur : t.current = some seg) (hsteady : Steady last fs)
    (hroom : keys seg.frames + keys fs < maxItems) (hfresh : Fresh av) :
    ∃ av' t', recordAll behind av fs = some av' ∧ Follows behind av' t' ∧ Fresh av' ∧ t'.done = t.done ∧
      t'.current = some { seg with ends := lastKey seg.ends fs, frames := seg.frames ++ fs } := by
  induction fs generalizing av t seg last with
  | nil =>
    refine ⟨av, t, rfl, h, hfresh, rfl, ?_⟩
    rw [hcur, List.append_nil]
    rfl
  | cons f fs ih =>
    have hkeys : keys (f :: fs) = keys [f] + keys fs := keys_append [f] fs
    have htake := take_steady hlast hcur hsteady.1 (by omega)
    obtain ⟨av₁, hrec, h₁, ht₁⟩ := localRecord_follows h ht f
    have hfresh₁ : Fresh av₁ := by
      refine localRecord_fresh ht (by rw [hlast]; exact hsteady.1) hfresh ?_ hrec
      rcases h.current with ⟨hnone, -, -⟩ | ⟨seg', hcur', hholds⟩
      · rw [hnone] at hcur
        cases hcur
      · rw [hcur] at hcur'
        have hnum := hholds.num
        rw [← Option.some.inj hcur'] at hnum
        omega
    rw [htake] at h₁ ht₁
    obtain ⟨av₂, t₂, hrun, h₂, hfresh₂, hdone, hcur₂⟩ := ih h₁ ht₁ rfl rfl hsteady.2
      (by dsimp only; rw [keys_append]; omega) hfresh₁
    refine ⟨av₂, t₂, by rw [recordAll, hrec, Option.bind_some, hrun], h₂, hfresh₂, hdone, ?_⟩
    rw [hcur₂, List.append_assoc]
    rfl

/-- All of a stream, as one segment. -/
def whole (k : Frame) (fs : List Frame) : Segment := ⟨dataStart, k.sec.toInt32, lastKey k.sec.toInt32 fs, k :: fs⟩

/-- The one file of a recorder is saved with its table. -/
theorem stop_whole (behind : Field 54) (h : Holds av seg) (hkept : seg.Kept) (hsaved : av.saved = [])
    (hfresh : Fresh av) :
    ∃ (av' : Recorder) (info : Info) (file : Saved), localRecordstop behind true av = some av' ∧ av'.saved = [file] ∧
      file.bytes = fileHeader behind ++ info.bytes ++ seg.raw.drop dataStart ∧ info.num = keys seg.frames ∧
      info.Lists seg ∧ info.item (keys seg.frames) = noItem := by
  have hnum := h.num
  have hkey := h.some_key
  have hopen : ¬(av.info.num < 0 ∨ av.info.begTime = 0 ∨ av.info.endTime = 0 ∨ av.info.begTime ≥ av.info.endTime) := by
    rw [h.begins, h.ends]
    exact fun hor => hkept (hor.resolve_left (by omega))
  rw [localRecordstop, h.file]
  dsimp only
  rw [if_pos rfl, if_pos rfl, closeFile, if_neg hopen]
  let info := { av.info with num := av.info.num + 1 }
  refine ⟨_, info, ⟨info.begTime, info.endTime,
    ((⟨seg.raw, 0, false⟩ : File).write (fileHeader behind) |>.write info.bytes).bytes⟩, rfl, ?_,
    drop_header behind info seg.raw, hnum, h.lists, hfresh _ (by omega)⟩
  rw [hsaved]
  rfl

/-- A key frame of one byte. -/
def keyBytes (sec : UInt8) : List UInt8 :=
  [1, 0, 0, 0, 0, 0, 0, 0, sec, 0, 0, 0, 0, 0, 0, 0, 0, 0, 0, 0, 1, 0, 25, 0, 0, 0, 0, 0, 0, 0, 0, 0, 7]

theorem keyBytes_length (sec : UInt8) : (keyBytes sec).length = 32 + word32 (keyBytes sec) 0 := rfl

def keyFrame (sec : UInt8) : Frame := ⟨keyBytes sec, keyBytes_length sec⟩

theorem keyFrame_plays (sec : UInt8) : Player.Plays (keyFrame sec) where
  some_body := Nat.zero_lt_one
  fits := show 1 ≤ 500 * 1024 - 32 by decide
  picture := Int.not_lt.mpr (show (0 : ℤ) ≤ 1024 * 1024 * 4 by decide)
  no_end := show 1 ≠ 255 by decide

theorem twoFrames_playable : (whole (keyFrame 1) [keyFrame 2]).Playable where
  base := rfl
  room := by decide
  size := by decide
  plays f hf := by
    rcases List.mem_cons.mp hf with rfl | hf
    · exact keyFrame_plays 1
    · rw [List.eq_of_mem_singleton hf]
      exact keyFrame_plays 2

end

end Recording

end SabApp
