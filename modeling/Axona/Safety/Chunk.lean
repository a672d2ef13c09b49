import Axona.Std.Chunk
import Axona.Library.Transition
import Mathlib.Data.List.Induction

/-! # Files that are put together

Files are cut (`chunkBytes`), and their messages come in any order and number, among foreign
messages and such as no record takes. A record that is full then has all slices of its file, each at
its place, and makes up the bytes. What the order decides is the metadata: the manifest has to come
before the last of the slices. -/

namespace Axona

open Library

variable {V : Type*} (P : Platform V) (only : Option Text)

/-! ### Histories -/

/-- A message that `accept` is called with. -/
abbrev Incoming (V : Type*) := Option (ChunkMessage V)

/-- The messages so far. -/
def received (ms : List (Incoming V)) (m : Incoming V) : List (Incoming V) := ms ++ [m]

/-- The call of `onComplete`. -/
def Acceptance.completion : Acceptance V → Option (Completed V)
  | .taken completed => completed
  | .refused | .threw => none

namespace Reassembler

/-- The reassembler after the messages. -/
def after (ms : List (Incoming V)) : Reassembler V :=
  run (fun s m => (s.accept P only m).1) ∅ ms

/-- What the next message brings about. -/
def outcome (ms : List (Incoming V)) (m : Incoming V) : Acceptance V :=
  ((after P only ms).accept P only m).2

/-- The calls of `onComplete`, from a state on. -/
def completions (s : Reassembler V) : List (Incoming V) → List (Completed V)
  | [] => []
  | m :: ms =>
    (s.accept P only m).2.completion.toList ++ completions (s.accept P only m).1 ms

theorem after_received (ms : List (Incoming V)) (m : Incoming V) :
    after P only (received ms m) = ((after P only ms).accept P only m).1 := by
  unfold after received
  rw [run_append]
  rfl

theorem completions_append (s : Reassembler V) (ms : List (Incoming V)) (m : Incoming V) :
    completions P only s (ms ++ [m]) = completions P only s ms
      ++ ((run (fun s m => (s.accept P only m).1) s ms).accept P only m).2.completion.toList := by
  induction ms generalizing s with
  | nil => simp [completions]
  | cons m' ms ih =>
    rw [List.cons_append, completions, completions, ih, run_cons, List.append_assoc]

theorem completions_received (ms : List (Incoming V)) (m : Incoming V) :
    completions P only ∅ (received ms m)
      = completions P only ∅ ms ++ (outcome P only ms m).completion.toList :=
  completions_append P only ∅ ms m

end Reassembler

/-! ### Files and their messages -/

/-- The message is one of the file. -/
def ChunkMessage.isFor (m : ChunkMessage V) (id : Text) : Bool :=
  m.f.isNumber chunkFormat && m.id.isText id

/-- The message is no manifest, and no slice with an index and a text. -/
def ChunkMessage.Malformed (m : ChunkMessage V) : Prop :=
  m.k.isText ['m'] = false
    ∧ (m.k.isText ['c'] = true → ∀ i d, m.i = .num i → m.d ≠ .str d)

/-- The files there are: under each id, how one was cut. -/
structure Files (V : Type*) where
  options : Text → ChunkOptions V
  random : Text → Text
  bytes : Text → List UInt8

namespace Files

variable (F : Files V) (id : Text)

/-- The manifest of a file. -/
def manifest : ChunkMessage V := (F.options id).manifest P (F.random id) (F.bytes id)

/-- The slices of a file. -/
def slices : List (List UInt8) := (F.options id).slices (F.bytes id)

/-- The message of a slice of a file. -/
def chunk (k : Nat) (slice : List UInt8) : ChunkMessage V :=
  (F.options id).chunk P (F.random id) (F.bytes id) k slice

/-- The messages of a file. -/
def messages : List (ChunkMessage V) := (F.options id).chunkBytes P (F.random id) (F.bytes id)

/-- The traffic is of the files as they were cut, of foreign messages, and of malformed ones. -/
def Honest (ms : List (Incoming V)) : Prop :=
  ∀ msg id, some msg ∈ ms → msg.isFor id = true → msg.Malformed ∨ msg ∈ F.messages P id

/-- A message of the file has come. -/
def Came (ms : List (Incoming V)) (msg : ChunkMessage V) : Prop :=
  some msg ∈ ms ∧ msg.isFor id = true

/-- Every slice of the file has come. -/
def SlicesCame (ms : List (Incoming V)) : Prop :=
  ∀ k slice, (F.slices id)[k]? = some slice → Came id ms (F.chunk P id k slice)

/-- What `onComplete` is to be called with. -/
def original : Completed V where
  id := id
  name := (F.options id).fileName
  mime := (F.options id).fileMime
  size := (F.bytes id).length
  bytes := F.bytes id
  metadata := (F.options id).metadata.coalesce .null

/-- What is asked of the reassembler. -/
structure Reassembles (ms : List (Incoming V)) : Prop where
  /-- `accept` never throws. -/
  noThrow : EachStep received (fun ms m => Reassembler.outcome P only ms m ≠ .threw) [] ms
  /-- No file is completed with a slice missing. -/
  whole : EachStep received (fun ms m => ∀ file,
    Reassembler.outcome P only ms m = .taken (some file) →
      F.SlicesCame P file.id (received ms m)) [] ms
  /-- The file is completed once, as it was cut. -/
  once : (Reassembler.completions P only ∅ ms).filter (fun file => file.id == id)
    = [F.original id]

/-- The file has a count, and its manifest comes in time: wherever every slice has come, it has too,
and it tells a name and a type. A file with the default name and type, and no more metadata, needs
no manifest. -/
def InTime (ms : List (Incoming V)) : Prop :=
  (F.options id).maxMessageBytes ≠ .nan
    ∧ (((F.options id).fileName.isNullish = false ∧ (F.options id).fileMime.isNullish = false
        ∧ ∀ ms', ms' <+: ms → F.SlicesCame P id ms' → Came id ms' (F.manifest P id))
      ∨ (F.options id).fileName = .str "file".toList
        ∧ (F.options id).fileMime = .str "application/octet-stream".toList
        ∧ (F.options id).metadata.isNullish = true)

end Files

/-! ### Cutting -/

namespace ChunkOptions

/-- The slices one behind the other. -/
theorem flatten_slices (raw n : Nat) (bytes : List UInt8) :
    ((List.range n).map fun i =>
      (bytes.take (min bytes.length ((i + 1) * raw))).drop (i * raw)).flatten
        = bytes.take (n * raw) := by
  induction n with
  | zero => simp
  | succ n ih =>
    have hcut : bytes.take (min bytes.length ((n + 1) * raw)) = bytes.take ((n + 1) * raw) := by
      rw [List.take_eq_take_iff]
      omega
    have hsmall : (bytes.take ((n + 1) * raw)).take (n * raw) = bytes.take (n * raw) := by
      rw [List.take_take, Nat.min_eq_left (Nat.mul_le_mul_right raw (Nat.le_succ n))]
    rw [List.range_succ, List.map_append, List.flatten_append, ih, List.map_singleton,
      List.flatten_singleton, hcut, ← hsmall, List.take_append_drop]

variable {o : ChunkOptions V} {bytes : List UInt8}

theorem rawChunkSize_nan_iff {x : JsNumber} : rawChunkSize x = .nan ↔ x = .nan := by
  unfold rawChunkSize
  split <;> simp

/-- A chunk takes a byte at least. -/
theorem rawChunkSize_pos {x : JsNumber} {raw : Nat} (h : rawChunkSize x = .size raw) :
    1 ≤ raw := by
  unfold rawChunkSize at h
  split at h
  · cases h
  · cases h
  · cases h
    exact le_refl 1
  · cases h
    exact Nat.le_max_left _ _

/-- The count in the messages is that of the slices, of which there is one at least. -/
theorem count_eq (bytes : List UInt8) (h : o.maxMessageBytes ≠ .nan) :
    o.count bytes = .fin ((o.slices bytes).length : Nat) ∧ 0 < (o.slices bytes).length := by
  unfold count slices
  cases hraw : rawChunkSize o.maxMessageBytes with
  | nan => exact absurd (rawChunkSize_nan_iff.mp hraw) h
  | unbounded => simp [RawChunk.count, RawChunk.slices]
  | size raw => simp [RawChunk.count, RawChunk.slices]

/-- Without a number there is no count. -/
theorem count_nan (h : o.maxMessageBytes = .nan) : o.count bytes = .nan := by
  unfold count
  rw [rawChunkSize_nan_iff.mpr h]
  rfl

/-- The slices make up the bytes. -/
theorem slices_flatten (h : o.maxMessageBytes ≠ .nan) : (o.slices bytes).flatten = bytes := by
  unfold slices
  cases hraw : rawChunkSize o.maxMessageBytes with
  | nan => exact absurd (rawChunkSize_nan_iff.mp hraw) h
  | unbounded => exact List.flatten_singleton
  | size raw =>
    have hpos := rawChunkSize_pos hraw
    rw [RawChunk.slices, flatten_slices]
    apply List.take_of_length_le
    calc bytes.length ≤ (bytes.length + raw - 1) / raw * raw := by
          have hdiv := Nat.div_add_mod (bytes.length + raw - 1) raw
          have hmod := Nat.mod_lt (bytes.length + raw - 1) hpos
          rw [Nat.mul_comm] at hdiv
          omega
      _ ≤ _ := Nat.mul_le_mul_right raw (Nat.le_max_right _ _)

end ChunkOptions

/-! ### A record of a file -/

/-- What a list of optional values gives is there at every place. -/
theorem mapM_eq_some_iff {α β : Type*} {f : α → Option β} {l : List α} {ys : List β} :
    l.mapM f = some ys ↔ l.map f = ys.map some := by
  induction l generalizing ys with
  | nil => cases ys <;> simp
  | cons a l ih =>
    cases hfa : f a with
    | none => cases ys <;> simp [hfa]
    | some b => cases ys <;> simp [hfa, Option.bind_eq_some_iff, ih]; tauto

namespace Field

variable {a b : Field V}

theorem coalesce_of_nullish (h : a.isNullish = true) : a.coalesce b = b := by
  cases a with
  | missing => rfl
  | null => rfl
  | _ => cases h

@[simp] theorem coalesce_coalesce : a.coalesce (a.coalesce b) = a.coalesce b := by
  cases a <;> rfl

end Field

namespace FileRecord

variable {P} {f : FileRecord V}

theorem full_iff : f.full = true ↔ f.n = some (.fin f.slots.size) := by
  unfold full
  rw [beq_iff_eq]

/-- The slices of a record, at their places. -/
theorem slices_eq_some {slices : List (List UInt8)} (hlength : slices.length = f.slots.size)
    (hslots : ∀ i < f.slots.size, f.slots.get (.fin i) = slices[i]?) :
    f.slices = some slices := by
  unfold FileRecord.slices
  rw [mapM_eq_some_iff]
  refine List.ext_getElem? fun i => ?_
  by_cases hi : i < f.slots.size
  · simp [hi, hslots i hi, hlength]
  · simp [hi, hlength]

/-- A malformed message is put to no record. -/
theorem put_malformed {m : ChunkMessage V} (h : m.Malformed) : f.put P m = (f, .refused) := by
  unfold put
  rw [h.1, if_neg Bool.false_ne_true]
  split
  next hk =>
    split
    next i d hi hd => exact absurd hd (h.2 hk i d hi)
    next => rfl
  · rfl

/-- The name, the type and the metadata on record. -/
def tags (f : FileRecord V) : Field V × Field V × Field V := (f.name, f.mime, f.metadata)

end FileRecord

namespace Files

variable {P only} (F : Files V)

/-- The name, the type and the metadata of a file on record, where its manifest was told or not. -/
def tags (id : Text) (told : Bool) : Field V × Field V × Field V :=
  if told then
    ((F.options id).fileName.coalesce (.str "file".toList),
      (F.options id).fileMime.coalesce (.str "application/octet-stream".toList),
      (F.options id).metadata.coalesce .null)
  else (.str "file".toList, .str "application/octet-stream".toList, .null)

/-- What `onComplete` is called with, where the manifest was told or not. -/
def completed (id : Text) (told : Bool) : Completed V :=
  ⟨id, (F.tags id told).1, (F.tags id told).2.1, (F.bytes id).length, F.bytes id,
    (F.tags id told).2.2⟩

variable {F} {id : Text} {ms : List (Incoming V)} {f : FileRecord V} {m : Incoming V}
  {msg : ChunkMessage V}

theorem mem_messages : msg ∈ F.messages P id ↔ msg = F.manifest P id
    ∨ ∃ k slice, (F.slices id)[k]? = some slice ∧ msg = F.chunk P id k slice := by
  unfold messages ChunkOptions.chunkBytes
  rw [List.mem_cons, List.mem_mapIdx]
  refine or_congr_right ⟨?_, ?_⟩
  · rintro ⟨k, hk, rfl⟩
    exact ⟨k, _, List.getElem?_eq_getElem hk, rfl⟩
  · rintro ⟨k, slice, h, rfl⟩
    obtain ⟨hk, rfl⟩ := List.getElem?_eq_some_iff.mp h
    exact ⟨k, hk, rfl⟩

theorem manifest_ne_chunk {k : Nat} {slice : List UInt8} :
    F.manifest P id ≠ F.chunk P id k slice := by
  intro h
  cases congrArg ChunkMessage.k h

theorem chunk_inj {k k' : Nat} {slice slice' : List UInt8}
    (h : F.chunk P id k slice = F.chunk P id k' slice') : k = k' := by
  have hi := JsNumber.fin.inj (Field.num.inj (congrArg ChunkMessage.i h))
  exact_mod_cast hi

theorem came_received : Came id (received ms m) msg
    ↔ Came id ms msg ∨ m = some msg ∧ msg.isFor id = true := by
  unfold Came received
  rw [List.mem_append, List.mem_singleton, or_and_right, eq_comm (a := m)]

theorem Came.mono {ms' : List (Incoming V)} (h : Came id ms msg) (hms : ms <+: ms') :
    Came id ms' msg :=
  ⟨hms.mem h.1, h.2⟩

/-- A record that was not completed has what has come of its file. -/
structure Holds (F : Files V) (P : Platform V) (id : Text) (ms : List (Incoming V))
    (f : FileRecord V) : Prop where
  fired : f.fired = false
  count : f.n = none ∨ f.n = some ((F.options id).count (F.bytes id))
  known : ∀ msg ∈ F.messages P id, Came id ms msg →
    f.n = some ((F.options id).count (F.bytes id))
  slots : f.slots.All fun i slice => ∃ k : Nat, i = .fin k ∧ (F.slices id)[k]? = some slice
    ∧ Came id ms (F.chunk P id k slice)
  has : ∀ k slice, (F.slices id)[k]? = some slice → Came id ms (F.chunk P id k slice) →
    f.slots.has (.fin k) = true
  told : ∃ told, (told = true ↔ Came id ms (F.manifest P id)) ∧ f.tags = F.tags id told
    ∧ f.size = if told then .num (.fin (F.bytes id).length) else .null

namespace Holds

theorem mk₀ : Holds F P id [] (FileRecord.mk₀ : FileRecord V) where
  fired := rfl
  count := .inl rfl
  known _ _ h := absurd h.1 List.not_mem_nil
  slots := OrderedMap.all_empty
  has _ _ _ h := absurd h.1 List.not_mem_nil
  told := ⟨false, iff_of_false Bool.false_ne_true fun h => absurd h.1 List.not_mem_nil, rfl, rfl⟩

variable (h : Holds F P id ms f)
include h

/-- A message that is none of the file changes nothing. -/
theorem other (hm : ∀ msg ∈ F.messages P id, m = some msg → msg.isFor id = false) :
    Holds F P id (received ms m) f := by
  have hback : ∀ msg ∈ F.messages P id, Came id (received ms m) msg ↔ Came id ms msg := by
    intro msg hmem
    rw [came_received, or_iff_left]
    rintro ⟨heq, hown⟩
    exact Bool.false_ne_true ((hm msg hmem heq).symm.trans hown)
  obtain ⟨told, htold, htags⟩ := h.told
  refine ⟨h.fired, h.count, fun msg hmem hcame => h.known msg hmem ((hback msg hmem).mp hcame),
    h.slots.mono fun i slice hslot => ?_, fun k slice hk hcame => ?_,
    told, htold.trans (hback _ (mem_messages.mpr (.inl rfl))).symm, htags⟩
  · obtain ⟨k, rfl, hk, hcame⟩ := hslot
    exact ⟨k, rfl, hk, hcame.mono (List.prefix_append ms [m])⟩
  · exact h.has k slice hk ((hback _ (mem_messages.mpr (.inr ⟨k, slice, hk, rfl⟩))).mp hcame)

/-- The manifest tells the metadata. -/
theorem putManifest (hown : (F.manifest P id).isFor id = true) :
    Holds F P id (received ms (some (F.manifest P id))) (f.putManifest (F.manifest P id)) := by
  obtain ⟨told, -, htags, -⟩ := h.told
  refine ⟨h.fired, .inr rfl, fun _ _ _ => rfl, h.slots.mono fun i slice hslot => ?_,
    fun k slice hk hcame => ?_, true, iff_of_true rfl (came_received.mpr (.inr ⟨rfl, hown⟩)), ?_,
    rfl⟩
  · obtain ⟨k, rfl, hk, hcame⟩ := hslot
    exact ⟨k, rfl, hk, hcame.mono (List.prefix_append ms _)⟩
  · rcases came_received.mp hcame with hcame | ⟨heq, -⟩
    · exact h.has k slice hk hcame
    · exact absurd (Option.some.inj heq) manifest_ne_chunk
  · have hmeta : (F.manifest P id).metadata.coalesce f.metadata
        = (F.options id).metadata.coalesce f.metadata := by
      change (if (F.options id).metadata.isNullish = true then Field.missing
        else (F.options id).metadata).coalesce f.metadata = _
      split
      next hnull => rw [Field.coalesce_of_nullish hnull, Field.coalesce_of_nullish rfl]
      next => rfl
    obtain ⟨hname, hmime, hmetadata⟩ : f.name = (F.tags id told).1
        ∧ f.mime = (F.tags id told).2.1 ∧ f.metadata = (F.tags id told).2.2 := by
      rw [← htags]
      exact ⟨rfl, rfl, rfl⟩
    change ((F.options id).fileName.coalesce f.name, (F.options id).fileMime.coalesce f.mime,
      (F.manifest P id).metadata.coalesce f.metadata) = _
    rw [hmeta, hname, hmime, hmetadata]
    cases told <;> simp [Files.tags]

/-- A slice comes to its place. -/
theorem putChunk {k : Nat} {slice : List UInt8} (hk : (F.slices id)[k]? = some slice)
    (hown : (F.chunk P id k slice).isFor id = true) :
    (f.put P (F.chunk P id k slice)).2 = .taken
      ∧ Holds F P id (received ms (some (F.chunk P id k slice)))
        (f.put P (F.chunk P id k slice)).1 := by
  have hput : f.put P (F.chunk P id k slice) =
      (if f.slots.has (.fin k) then
          { f with n := f.n.or (some ((F.options id).count (F.bytes id))) }
        else { f with
          n := f.n.or (some ((F.options id).count (F.bytes id)))
          slots := f.slots.set (.fin k) slice }, .taken) := by
    change f.putSlice P (.num ((F.options id).count (F.bytes id))) (.fin k) (Base64.encode slice) = _
    unfold FileRecord.putSlice
    dsimp only [Field.number]
    rw [P.reads slice]
    split <;> rfl
  have hcount : f.n.or (some ((F.options id).count (F.bytes id)))
      = some ((F.options id).count (F.bytes id)) := by
    rcases h.count with hnone | hsome
    · rw [hnone]
      rfl
    · rw [hsome]
      rfl
  have hslots : f.slots.All fun i slice' => ∃ k' : Nat, i = .fin k'
      ∧ (F.slices id)[k']? = some slice'
      ∧ Came id (received ms (some (F.chunk P id k slice))) (F.chunk P id k' slice') := by
    refine h.slots.mono fun i slice' hslot => ?_
    obtain ⟨k', rfl, hk', hcame⟩ := hslot
    exact ⟨k', rfl, hk', hcame.mono (List.prefix_append ms _)⟩
  have hnew : Came id (received ms (some (F.chunk P id k slice))) (F.chunk P id k slice) :=
    came_received.mpr (.inr ⟨rfl, hown⟩)
  have htold : ∃ told, (told = true
      ↔ Came id (received ms (some (F.chunk P id k slice))) (F.manifest P id))
      ∧ f.tags = F.tags id told
      ∧ f.size = if told then .num (.fin (F.bytes id).length) else .null := by
    obtain ⟨told, htold, hrest⟩ := h.told
    refine ⟨told, htold.trans ?_, hrest⟩
    rw [came_received, or_iff_left]
    rintro ⟨heq, -⟩
    exact manifest_ne_chunk (Option.some.inj heq).symm
  rw [hput]
  refine ⟨rfl, ?_⟩
  dsimp only
  split
  next hhas =>
    refine ⟨h.fired, .inr hcount, fun _ _ _ => hcount, hslots, fun k' slice' hk' hcame => ?_,
      htold⟩
    rcases came_received.mp hcame with hcame | ⟨heq, -⟩
    · exact h.has k' slice' hk' hcame
    · rwa [← chunk_inj (Option.some.inj heq)]
  next hfree =>
    refine ⟨h.fired, .inr hcount, fun _ _ _ => hcount, hslots.set ⟨k, rfl, hk, hnew⟩,
      fun k' slice' hk' hcame => ?_, htold⟩
    rw [OrderedMap.has_set, Bool.or_eq_true, decide_eq_true_eq]
    rcases came_received.mp hcame with hcame | ⟨heq, -⟩
    · exact .inr (h.has k' slice' hk' hcame)
    · exact .inl (by rw [chunk_inj (Option.some.inj heq)])

/-- The places that are taken are those of slices. -/
theorem keys_subset :
    f.slots.keys ⊆ (List.range (F.slices id).length).map fun k : Nat => JsNumber.fin k := by
  intro key hkey
  obtain ⟨slice, hget⟩ := OrderedMap.has_iff.mp (OrderedMap.has_iff_mem_keys.mpr hkey)
  obtain ⟨k, rfl, hk, -⟩ := h.slots key slice hget
  exact List.mem_map.mpr ⟨k, List.mem_range.mpr (List.getElem?_eq_some_iff.mp hk).1, rfl⟩

/-- As many places as slices: each has its own. -/
theorem get_of_size (hsize : f.slots.size = (F.slices id).length) {k : Nat} {slice : List UInt8}
    (hk : (F.slices id)[k]? = some slice) :
    f.slots.get (.fin k) = some slice ∧ Came id ms (F.chunk P id k slice) := by
  have hperm : f.slots.keys.Perm
      ((List.range (F.slices id).length).map fun k : Nat => JsNumber.fin k) := by
    have hkeys : f.slots.keys.Nodup := f.slots.keys_nodup
    refine (List.subperm_of_subset hkeys h.keys_subset).perm_of_length_le ?_
    rw [List.length_map, List.length_range, ← hsize, OrderedMap.size_eq_length_keys]
  have hmem : JsNumber.fin (k : ℚ) ∈ f.slots.keys := by
    refine hperm.mem_iff.mpr (List.mem_map.mpr ⟨k, List.mem_range.mpr ?_, rfl⟩)
    exact (List.getElem?_eq_some_iff.mp hk).1
  obtain ⟨slice', hget⟩ := OrderedMap.has_iff.mp (OrderedMap.has_iff_mem_keys.mpr hmem)
  obtain ⟨k', hkey, hk', hcame⟩ := h.slots _ slice' hget
  obtain rfl : k = k' := by exact_mod_cast JsNumber.fin.inj hkey
  obtain rfl := Option.some.inj (hk.symm.trans hk')
  exact ⟨hget, hcame⟩

/-- A record is full exactly if there is a count and every slice has come. -/
theorem full_iff :
    f.full = true ↔ (F.options id).maxMessageBytes ≠ .nan ∧ F.SlicesCame P id ms := by
  rw [FileRecord.full_iff]
  constructor
  · intro hn
    have hcount : (F.options id).count (F.bytes id) = .fin (f.slots.size : Nat) := by
      rcases h.count with hnone | hsome
      · rw [hnone] at hn
        cases hn
      · exact Option.some.inj (hsome.symm.trans hn)
    have hnumber : (F.options id).maxMessageBytes ≠ .nan := by
      intro hnan
      rw [ChunkOptions.count_nan hnan] at hcount
      cases hcount
    have hlength := (ChunkOptions.count_eq (F.bytes id) hnumber).1
    rw [hcount] at hlength
    have hsize : f.slots.size = (F.slices id).length := by exact_mod_cast JsNumber.fin.inj hlength
    exact ⟨hnumber, fun k slice hk => (h.get_of_size hsize hk).2⟩
  · rintro ⟨hnumber, hall⟩
    obtain ⟨hcount, hpos⟩ := ChunkOptions.count_eq (F.bytes id) hnumber
    have hfirst := List.getElem?_eq_getElem hpos
    rw [h.known _ (mem_messages.mpr (.inr ⟨0, _, hfirst, rfl⟩)) (hall 0 _ hfirst), hcount]
    have hnodup : ((List.range (F.slices id).length).map fun k : Nat => JsNumber.fin k).Nodup :=
      List.nodup_range.map fun a b hab => by exact_mod_cast JsNumber.fin.inj hab
    have hsubset : ((List.range (F.slices id).length).map fun k : Nat => JsNumber.fin k)
        ⊆ f.slots.keys := by
      intro key hkey
      obtain ⟨k, hk, rfl⟩ := List.mem_map.mp hkey
      have hslice := List.getElem?_eq_getElem (List.mem_range.mp hk)
      exact OrderedMap.has_iff_mem_keys.mp (h.has k _ hslice (hall k _ hslice))
    have hkeys : f.slots.keys.Nodup := f.slots.keys_nodup
    have hle := (List.subperm_of_subset hkeys h.keys_subset).length_le
    have hge := (List.subperm_of_subset hnodup hsubset).length_le
    rw [← OrderedMap.size_eq_length_keys, List.length_map, List.length_range] at hle hge
    rw [le_antisymm hle hge]
    rfl

/-- A full record makes up its file. -/
theorem complete (hmax : (F.bytes id).length ≤ P.maxLength) (hfull : f.full = true) :
    ∃ told, (told = true ↔ Came id ms (F.manifest P id))
      ∧ f.complete P id
        = some ({ f with fired := true, slots := ∅ }, some (F.completed id told)) := by
  obtain ⟨hnumber, hall⟩ := h.full_iff.mp hfull
  have hlength := (ChunkOptions.count_eq (F.bytes id) hnumber).1
  have hn := FileRecord.full_iff.mp hfull
  have hsize : f.slots.size = (F.slices id).length := by
    rcases h.count with hnone | hsome
    · rw [hnone] at hn
      cases hn
    · rw [hsome, hlength] at hn
      exact_mod_cast (JsNumber.fin.inj (Option.some.inj hn)).symm
  have hslices : f.slices = some (F.slices id) := by
    refine FileRecord.slices_eq_some hsize.symm fun i hi => ?_
    have hslice := List.getElem?_eq_getElem (hsize ▸ hi)
    rw [hslice, (h.get_of_size hsize hslice).1]
  obtain ⟨told, htold, htags, hroom⟩ := h.told
  refine ⟨told, htold, ?_⟩
  have hflat : (F.slices id).flatten = F.bytes id := ChunkOptions.slices_flatten hnumber
  have halloc : (if f.size.isNullish = true then some (List.replicate (F.bytes id).length 0)
      else P.newUint8Array f.size) = some (List.replicate (F.bytes id).length 0) := by
    rw [hroom]
    cases told with
    | false => rfl
    | true => simp [Field.isNullish, Platform.newUint8Array, Platform.zeros, hmax]
  have hassemble : f.assemble P (F.slices id) = some (F.bytes id) := by
    unfold FileRecord.assemble
    rw [hflat]
    dsimp only
    rw [halloc]
    simp
  unfold FileRecord.complete
  rw [h.fired, hfull, if_neg (by decide), hslices]
  dsimp only
  rw [hassemble, completed, ← htags]
  rfl

end Holds

end Files

/-- A message is one of one file only. -/
theorem ChunkMessage.isFor_inj {msg : ChunkMessage V} {id id' : Text} (h : msg.isFor id = true)
    (h' : msg.isFor id' = true) : id = id' := by
  unfold isFor at h h'
  cases hid : msg.id with
  | str s =>
    rw [hid] at h h'
    simp only [Field.isText, Bool.and_eq_true, beq_iff_eq] at h h'
    exact h.2.symm.trans h'.2
  | _ =>
    rw [hid] at h
    simp [Field.isText] at h

namespace Reassembler

/-- `accept` takes a message of one file, or does nothing. -/
theorem accept_cases (s : Reassembler V) (m : Incoming V) :
    (∃ msg id, m = some msg ∧ msg.isFor id = true ∧ excludes only id = false
      ∧ s.accept P only m = s.take P id msg)
    ∨ (∀ msg id, m = some msg → msg.isFor id = true → excludes only id = true)
      ∧ s.accept P only m = (s, .refused) := by
  cases m with
  | none => exact .inr ⟨fun _ _ h => (Option.some_ne_none _ h.symm).elim, rfl⟩
  | some msg =>
    by_cases hf : msg.f.isNumber chunkFormat = true
    · cases hid : msg.id with
      | str id =>
        have hown : msg.isFor id = true := by simp [ChunkMessage.isFor, hf, hid, Field.isText]
        cases hex : excludes only id with
        | false =>
          refine .inl ⟨msg, id, rfl, hown, hex, ?_⟩
          simp [accept, hf, hid, hex]
        | true =>
          refine .inr ⟨?_, by simp [accept, hf, hid, hex]⟩
          rintro msg' id' ⟨⟩ hown'
          obtain rfl := ChunkMessage.isFor_inj hown hown'
          exact hex
      | _ =>
        refine .inr ⟨?_, by simp [accept, hf, hid]⟩
        rintro msg' id' ⟨⟩ hown'
        simp [ChunkMessage.isFor, hid, Field.isText] at hown'
    · refine .inr ⟨?_, by simp [accept, hf]⟩
      rintro msg' id' ⟨⟩ hown'
      simp [ChunkMessage.isFor, hf] at hown'

theorem file_set (s : Reassembler V) (id id' : Text) (f : FileRecord V) :
    file (OrderedMap.set s id f) id' = if id' = id then f else s.file id' := by
  unfold file
  rw [OrderedMap.get_set]
  split <;> rfl

/-! ### Where a file stands -/

/-- The first point where every slice of a file has come. -/
def FirstWhole (F : Files V) (id : Text) (ms' ms : List (Incoming V)) : Prop :=
  ms' <+: ms ∧ F.SlicesCame P id ms'
    ∧ ∀ ms'', ms'' <+: ms' → F.SlicesCame P id ms'' → ms'' = ms'

/-- A file waits for a slice, with what has come of it on record, or it was completed at the first
point where every slice had come. -/
inductive Standing (F : Files V) (id : Text) (ms : List (Incoming V)) : Prop
  | waits (hfile : F.Holds P id ms ((after P only ms).file id))
      (hopen : ¬((F.options id).maxMessageBytes ≠ .nan ∧ F.SlicesCame P id ms))
      (hnone : (completions P only ∅ ms).filter (fun file => file.id == id) = [])
  | done (ms' : List (Incoming V)) (told : Bool) (hfirst : FirstWhole P F id ms' ms)
      (hnumber : (F.options id).maxMessageBytes ≠ .nan)
      (htold : told = true ↔ Files.Came id ms' (F.manifest P id))
      (hfired : ((after P only ms).file id).fired = true)
      (hone : (completions P only ∅ ms).filter (fun file => file.id == id)
        = [F.completed id told])

/-- What a message brings about, and where its file then stands. -/
structure Taken (F : Files V) (id : Text) (ms : List (Incoming V)) (m : Incoming V) : Prop where
  standing : Standing P only F id (received ms m)
  noThrow : outcome P only ms m ≠ .threw
  whole : ∀ file, outcome P only ms m = .taken (some file) →
    file.id = id ∧ F.SlicesCame P id (received ms m)

variable {P only} {F : Files V} {id : Text} {ms : List (Incoming V)} {m : Incoming V}
  {msg : ChunkMessage V}

theorem FirstWhole.received {ms' : List (Incoming V)} (h : FirstWhole P F id ms' ms)
    (m : Incoming V) : FirstWhole P F id ms' (received ms m) :=
  ⟨h.1.trans (List.prefix_append ms [m]), h.2⟩

theorem SlicesCame.mono {ms' : List (Incoming V)} (h : F.SlicesCame P id ms) (hms : ms <+: ms') :
    F.SlicesCame P id ms' :=
  fun k slice hk => (h k slice hk).mono hms

/-- The message that brings the last slice is the first to do so. -/
theorem firstWhole_received (hopen : ¬F.SlicesCame P id ms)
    (h : F.SlicesCame P id (Axona.received ms m)) :
    FirstWhole P F id (Axona.received ms m) (Axona.received ms m) := by
  refine ⟨List.prefix_refl _, h, fun ms'' hms'' hcame => ?_⟩
  rcases List.prefix_concat_iff.mp hms'' with rfl | hms''
  · rfl
  · exact absurd (SlicesCame.mono hcame hms'') hopen

/-- A file that a message says nothing of stands where it did. -/
theorem Standing.unchanged (h : Standing P only F id ms)
    (hfile : (after P only (Axona.received ms m)).file id = (after P only ms).file id)
    (hother : ((after P only ms).file id).fired = false →
      ∀ msg ∈ F.messages P id, m = some msg → msg.isFor id = false)
    (hnone : ∀ file, (outcome P only ms m).completion = some file → file.id ≠ id) :
    Standing P only F id (Axona.received ms m) := by
  have hfilter : (completions P only ∅ (Axona.received ms m)).filter (fun file => file.id == id)
      = (completions P only ∅ ms).filter (fun file => file.id == id) := by
    have hnew : (outcome P only ms m).completion.toList.filter (fun file => file.id == id)
        = [] := by
      rw [List.filter_eq_nil_iff]
      intro file hmem
      rw [beq_iff_eq]
      exact hnone file (Option.mem_toList.mp hmem)
    rw [completions_received, List.filter_append, hnew, List.append_nil]
  cases h with
  | waits hhold hopen hnil =>
    have hhold' := hhold.other (hother hhold.fired)
    refine .waits (by rwa [hfile]) ?_ (hfilter.trans hnil)
    rw [← hhold.full_iff] at hopen
    rwa [← hhold'.full_iff]
  | done ms' told hfirst hnumber htold hfired hone =>
    exact .done ms' told (hfirst.received m) hnumber htold (by rwa [hfile]) (hfilter.trans hone)

/-- What a message of the file brings about, from what its record makes of it. -/
theorem received_of_take {f : FileRecord V} {r : Acceptance V}
    (hacc : (after P only ms).accept P only (some msg) = (after P only ms).take P id msg)
    (htake : (after P only ms).take P id msg = ((after P only ms).set id f, r)) :
    (after P only (Axona.received ms (some msg))).file id = f ∧ outcome P only ms (some msg) = r
      ∧ completions P only ∅ (Axona.received ms (some msg))
        = completions P only ∅ ms ++ r.completion.toList := by
  have houtcome : outcome P only ms (some msg) = r := by
    unfold outcome
    rw [hacc, htake]
  refine ⟨?_, houtcome, by rw [completions_received, houtcome]⟩
  rw [after_received, hacc, htake, file_set, if_pos rfl]

/-- A message that leaves its record as it was, since the file was completed or the message is
malformed. -/
theorem Standing.idle (h : Standing P only F id ms)
    (hacc : (after P only ms).accept P only (some msg) = (after P only ms).take P id msg)
    (hidle : ((after P only ms).file id).fired = true ∨ msg.Malformed ∧ msg ∉ F.messages P id) :
    Taken P only F id ms (some msg) := by
  have htake : ∃ r, (r = .refused ∨ r = .taken none) ∧ (after P only ms).take P id msg
      = ((after P only ms).set id ((after P only ms).file id), r) := by
    unfold take
    dsimp only
    split
    next => exact ⟨_, .inr rfl, rfl⟩
    next hopen =>
      rw [FileRecord.put_malformed (hidle.resolve_left hopen).1]
      exact ⟨_, .inl rfl, rfl⟩
  obtain ⟨r, hr, htake⟩ := htake
  obtain ⟨hfile, houtcome, -⟩ := received_of_take hacc htake
  have hnone : ∀ file, r.completion ≠ some file := by rcases hr with rfl | rfl <;> nofun
  refine ⟨h.unchanged hfile ?_ ?_, ?_, ?_⟩
  · rintro hopen msg' hmem ⟨⟩
    rcases hidle with hfired | ⟨-, hother⟩
    · exact (Bool.false_ne_true (hopen.symm.trans hfired)).elim
    · exact absurd hmem hother
  · intro file hcompletion
    rw [houtcome] at hcompletion
    exact absurd hcompletion (hnone file)
  · rw [houtcome]
    rcases hr with rfl | rfl <;> nofun
  · intro file htaken
    rw [houtcome] at htaken
    exact absurd (congrArg Acceptance.completion htaken) (hnone file)

/-- A record that its message leaves in order is completed, or waits on. -/
theorem Standing.put {f : FileRecord V} (hmax : (F.bytes id).length ≤ P.maxLength)
    (hfired : ((after P only ms).file id).fired = false)
    (hopen : ¬((F.options id).maxMessageBytes ≠ .nan ∧ F.SlicesCame P id ms))
    (hnil : (completions P only ∅ ms).filter (fun file => file.id == id) = [])
    (hacc : (after P only ms).accept P only (some msg) = (after P only ms).take P id msg)
    (hput : ((after P only ms).file id).put P msg = (f, .taken))
    (hhold : F.Holds P id (Axona.received ms (some msg)) f) :
    Taken P only F id ms (some msg) := by
  have htake {f' c} (hcomplete : f.complete P id = some (f', c)) :
      (after P only ms).take P id msg = ((after P only ms).set id f', .taken c) := by
    unfold take
    simp only [hfired, hput, hcomplete, Bool.false_eq_true, if_false]
  cases hfull : f.full with
  | false =>
    have hcomplete : f.complete P id = some (f, none) := by
      unfold FileRecord.complete
      rw [hfull, Bool.not_false, Bool.or_true, if_pos rfl]
    obtain ⟨hfile, houtcome, hcompletions⟩ := received_of_take hacc (htake hcomplete)
    refine ⟨.waits (by rwa [hfile]) ?_ ?_, by rw [houtcome]; nofun, fun file htaken => ?_⟩
    · rw [← hhold.full_iff, hfull]
      exact Bool.false_ne_true
    · rw [hcompletions, List.filter_append, hnil]
      rfl
    · rw [houtcome] at htaken
      cases htaken
  | true =>
    obtain ⟨hnumber, hcame⟩ := hhold.full_iff.mp hfull
    obtain ⟨told, htold, hcomplete⟩ := hhold.complete hmax hfull
    obtain ⟨hfile, houtcome, hcompletions⟩ := received_of_take hacc (htake hcomplete)
    refine ⟨.done _ told (firstWhole_received (fun h => hopen ⟨hnumber, h⟩) hcame) hnumber htold
      (by rw [hfile]) ?_, by rw [houtcome]; nofun, fun file htaken => ?_⟩
    · rw [hcompletions, List.filter_append, hnil]
      simp [Acceptance.completion, Files.completed]
    · rw [houtcome] at htaken
      cases htaken
      exact ⟨rfl, hcame⟩

/-- **An honest message of a file.** -/
theorem Standing.taken (h : Standing P only F id ms) (hmax : (F.bytes id).length ≤ P.maxLength)
    (hown : msg.isFor id = true)
    (hacc : (after P only ms).accept P only (some msg) = (after P only ms).take P id msg)
    (hhonest : msg.Malformed ∨ msg ∈ F.messages P id) : Taken P only F id ms (some msg) := by
  cases hfired : ((after P only ms).file id).fired with
  | true => exact h.idle hacc (.inl hfired)
  | false =>
    by_cases hmem : msg ∈ F.messages P id
    · cases h with
      | done _ _ _ _ _ hfired' =>
        rw [hfired] at hfired'
        cases hfired'
      | waits hfile hopen hnil =>
        rcases Files.mem_messages.mp hmem with rfl | ⟨k, slice, hk, rfl⟩
        · exact Standing.put hmax hfired hopen hnil hacc rfl (hfile.putManifest hown)
        · obtain ⟨htaken, hhold⟩ := hfile.putChunk hk hown
          exact Standing.put hmax hfired hopen hnil hacc (Prod.ext rfl htaken) hhold
    · exact h.idle hacc (.inr ⟨hhonest.resolve_right hmem, hmem⟩)

/-- Another file is left as it was. -/
theorem file_take_ne {s : Reassembler V} {id' : Text} (h : id' ≠ id) :
    (s.take P id msg).1.file id' = s.file id' := by
  unfold take
  dsimp only
  split
  · rw [file_set, if_neg h]
  split
  · rw [file_set, if_neg h]
  · rw [file_set, if_neg h]
  · split <;> rw [file_set, if_neg h]

/-- Where all files stand that the reassembler keeps to. -/
def AllStanding (P : Platform V) (only : Option Text) (F : Files V) (ms : List (Incoming V)) :
    Prop :=
  ∀ id, excludes only id = false → Standing P only F id ms

variable (P only F) in
theorem allStanding_nil : AllStanding P only F [] := by
  refine fun id _ => .waits Files.Holds.mk₀ ?_ rfl
  rintro ⟨hnumber, hcame⟩
  have hfirst := List.getElem?_eq_getElem (ChunkOptions.count_eq (F.bytes id) hnumber).2
  exact absurd (hcame 0 _ hfirst).1 List.not_mem_nil

/-- The step lemma: an honest message does no harm, and every file stands after it. -/
theorem AllStanding.received (h : AllStanding P only F ms)
    (hmax : ∀ id, (F.bytes id).length ≤ P.maxLength)
    (hhonest : F.Honest P (Axona.received ms m)) :
    AllStanding P only F (Axona.received ms m) ∧ outcome P only ms m ≠ .threw
      ∧ ∀ file, outcome P only ms m = .taken (some file) →
        F.SlicesCame P file.id (Axona.received ms m) := by
  rcases accept_cases P only (after P only ms) m with ⟨msg, id, rfl, hown, hex, hacc⟩ | ⟨hno, hacc⟩
  · obtain ⟨hstanding, hne, hwhole⟩ := (h id hex).taken (hmax id) hown hacc
      (hhonest msg id (List.mem_append_right _ (List.mem_singleton_self _)) hown)
    refine ⟨fun id' hex' => ?_, hne, fun file hfile => ?_⟩
    · by_cases hid : id' = id
      · rwa [hid]
      refine (h id' hex').unchanged ?_ ?_ ?_
      · rw [after_received, hacc, file_take_ne hid]
      · rintro - msg' - heq
        cases heq
        exact Bool.eq_false_iff.mpr fun hown' => hid (ChunkMessage.isFor_inj hown' hown)
      · intro file hfile heq
        refine hid (heq.symm.trans (hwhole file ?_).1)
        cases houtcome : outcome P only ms (some msg) with
        | taken completed =>
          rw [houtcome] at hfile
          exact congrArg _ hfile
        | _ =>
          rw [houtcome] at hfile
          cases hfile
    · obtain ⟨rfl, hcame⟩ := hwhole file hfile
      exact hcame
  · have houtcome : outcome P only ms m = .refused := by
      unfold outcome
      rw [hacc]
    rw [houtcome]
    refine ⟨fun id' hex' => (h id' hex').unchanged ?_ ?_ ?_, nofun, nofun⟩
    · rw [after_received, hacc]
    · refine fun _ msg _ heq => Bool.eq_false_iff.mpr fun hown => ?_
      rw [hno msg id' heq hown] at hex'
      cases hex'
    · intro file hfile
      rw [houtcome] at hfile
      cases hfile

/-- The run lemma: honest traffic does no harm, and every file stands after it. -/
theorem AllStanding.run {ms' : List (Incoming V)} (h : AllStanding P only F ms)
    (hmax : ∀ id, (F.bytes id).length ≤ P.maxLength) (hhonest : F.Honest P (ms ++ ms')) :
    AllStanding P only F (ms ++ ms')
      ∧ EachStep Axona.received (fun ms m => outcome P only ms m ≠ .threw) ms ms'
      ∧ EachStep Axona.received (fun ms m => ∀ file, outcome P only ms m = .taken (some file) →
          F.SlicesCame P file.id (Axona.received ms m)) ms ms' := by
  induction ms' generalizing ms with
  | nil => exact ⟨by rwa [List.append_nil], trivial, trivial⟩
  | cons m ms' ih =>
    have hsplit : ms ++ m :: ms' = Axona.received ms m ++ ms' := by
      rw [Axona.received, List.append_assoc, List.singleton_append]
    rw [hsplit] at hhonest ⊢
    obtain ⟨hstanding, hne, hwhole⟩ := h.received hmax fun msg id hmem =>
      hhonest msg id (List.mem_append_left _ hmem)
    obtain ⟨hall, hnes, hwholes⟩ := ih hstanding hhonest
    exact ⟨hall, ⟨hne, hnes⟩, hwhole, hwholes⟩

end Reassembler

namespace Files

open Reassembler

variable {F : Files V} {id : Text} {ms : List (Incoming V)}

/-- What is on record is the file's own exactly if the manifest was told, with a name and a type, or
there was nothing to tell. -/
theorem completed_eq_original_iff {told : Bool} : F.completed id told = F.original id
    ↔ told = true ∧ (F.options id).fileName.isNullish = false
          ∧ (F.options id).fileMime.isNullish = false
      ∨ (F.options id).fileName = .str "file".toList
        ∧ (F.options id).fileMime = .str "application/octet-stream".toList
        ∧ (F.options id).metadata.isNullish = true := by
  have hcoalesce : ∀ (a : Field V) (t : Text),
      a.coalesce (.str t) = a ↔ a.isNullish = false := by
    intro a t
    cases a <;> simp [Field.coalesce, Field.isNullish]
  have hnull : ∀ a : Field V, Field.null = a.coalesce .null ↔ a.isNullish = true := by
    intro a
    cases a <;> simp [Field.coalesce, Field.isNullish]
  unfold completed original tags
  cases told with
  | true =>
    simp only [if_true, Completed.mk.injEq, true_and, hcoalesce, and_true]
    refine ⟨.inl, ?_⟩
    rintro (h | ⟨hname, hmime, -⟩)
    · exact h
    · rw [hname, hmime]
      exact ⟨rfl, rfl⟩
  | false =>
    simp only [Bool.false_eq_true, if_false, Completed.mk.injEq, true_and, false_and, false_or,
      hnull, eq_comm (b := (F.options id).fileName), eq_comm (b := (F.options id).fileMime)]

theorem isFor_chunk {k : Nat} {slice : List UInt8}
    (hid : (F.options id).id P (F.random id) = .str id) :
    (F.chunk P id k slice).isFor id = true := by
  have hown : (F.chunk P id k slice).id = .str id := hid
  unfold ChunkMessage.isFor
  rw [hown]
  simp [chunk, ChunkOptions.chunk, Field.isNumber, Field.isText]

/-- **Reassembly.** Among files as they were cut, foreign messages and malformed ones, in any order
and any number, a file of which all messages come is completed once and as it was cut, no file is
completed with a slice missing, and `accept` never throws, exactly if the manifest comes in time. -/
theorem reassembles_iff (F : Files V) (P : Platform V) (only : Option Text) (id : Text)
    (ms : List (Incoming V)) (hhonest : F.Honest P ms)
    (hmax : ∀ id, (F.bytes id).length ≤ P.maxLength) (hex : excludes only id = false)
    (hid : (F.options id).id P (F.random id) = .str id)
    (hall : ∀ msg ∈ F.messages P id, some msg ∈ ms) :
    F.Reassembles P only id ms ↔ F.InTime P id ms := by
  have hhonest' : F.Honest P ([] ++ ms) := hhonest
  obtain ⟨hstanding, hne, hwhole⟩ := (allStanding_nil P only F).run hmax hhonest'
  rw [List.nil_append] at hstanding
  have hcame : F.SlicesCame P id ms := fun k slice hk =>
    ⟨hall _ (mem_messages.mpr (.inr ⟨k, slice, hk, rfl⟩)), isFor_chunk P hid⟩
  suffices honce : (completions P only ∅ ms).filter (fun file => file.id == id) = [F.original id]
      ↔ F.InTime P id ms from
    ⟨fun h => honce.mp h.once, fun h => ⟨hne, hwhole, honce.mpr h⟩⟩
  cases hstanding id hex with
  | waits _ hopen hnil =>
    rw [hnil]
    exact iff_of_false nofun fun h => hopen ⟨h.1, hcame⟩
  | done ms' told hfirst hnumber htold _ hone =>
    -- the first point where every slice has come decides for all others
    have htime : told = true ↔ ∀ ms'', ms'' <+: ms → F.SlicesCame P id ms'' →
        Came id ms'' (F.manifest P id) := by
      refine htold.trans ⟨fun hmanifest ms'' hms'' hslices => ?_, fun h => h ms' hfirst.1 hfirst.2.1⟩
      rcases List.prefix_or_prefix_of_prefix hfirst.1 hms'' with hle | hle
      · exact hmanifest.mono hle
      · rwa [hfirst.2.2 ms'' hle hslices]
    rw [hone, List.singleton_inj, completed_eq_original_iff, htime, InTime,
      and_iff_right hnumber]
    exact or_congr_left ⟨fun ⟨h, hname, hmime⟩ => ⟨hname, hmime, h⟩,
      fun ⟨hname, hmime, h⟩ => ⟨h, hname, hmime⟩⟩

/-- A platform without other values, that reads every text as far as it can. -/
def plainPlatform : Platform Empty where
  maxLength := 4096
  toNumber _ := .nan
  fromValue _ := none
  truthy _ := true
  b64ToBytes text := some (Base64.decode text)
  reads bytes := congrArg some (Base64.decode_encode bytes)

/-- A file of three bytes, under the id `a`. -/
def smallFile : Files Empty where
  options _ := { name := .str "x.bin".toList, fileId := .str ['a'] }
  random id := id
  bytes _ := [1, 2, 3]

/-- A message that names the file, with an index that is none of it. -/
def strayChunk : ChunkMessage Empty where
  f := .num (.fin 1)
  k := .str ['c']
  id := .str ['a']
  i := .num (.fin 7)
  n := .num (.fin 1)
  d := .str "AAAA".toList

/-- The messages of the file, each twice, with one between them that has no index. -/
def smallTraffic : List (Incoming Empty) :=
  let messages := (smallFile.messages plainPlatform ['a']).map some
  none :: messages ++ some { strayChunk with i := .missing } :: messages

theorem reassembles_small :
    smallFile.Reassembles plainPlatform none ['a'] smallTraffic
      ↔ smallFile.InTime plainPlatform ['a'] smallTraffic := by
  have hown : ∀ msg ∈ smallFile.messages plainPlatform ['a'], msg.isFor ['a'] = true := by
    decide +kernel
  refine reassembles_iff smallFile plainPlatform none ['a'] smallTraffic ?_
    (fun _ => Nat.le_of_ble_eq_true rfl) rfl (by decide) fun msg hmem => List.mem_cons_of_mem _ (List.mem_append_left _
      (List.mem_map_of_mem hmem))
  intro msg id hmem hid
  simp only [smallTraffic, List.cons_append, List.mem_cons, List.mem_append, List.mem_map,
    Option.some.injEq, reduceCtorEq, false_or, exists_eq_right] at hmem
  rcases hmem with hmem | rfl | hmem
  · exact .inr (ChunkMessage.isFor_inj (hown msg hmem) hid ▸ hmem)
  · exact .inl ⟨by decide, nofun⟩
  · exact .inr (ChunkMessage.isFor_inj (hown msg hmem) hid ▸ hmem)

/-- **A manifest that comes last comes too late**: the slice alone fills the file, which is
completed under the name `file`. **And a stray index makes `accept` throw**: one index is there, as
the count says, but it is not the first one. -/
theorem late_manifest_and_stray :
    ¬smallFile.Reassembles plainPlatform none ['a']
        ((smallFile.messages plainPlatform ['a']).reverse.map some)
      ∧ Reassembler.outcome plainPlatform none [] (some strayChunk) = .threw
      ∧ ¬smallFile.Reassembles plainPlatform none ['a']
        (some strayChunk :: (smallFile.messages plainPlatform ['a']).map some) := by
  have hstray : Reassembler.outcome plainPlatform none [] (some strayChunk) = .threw := by
    decide +kernel
  exact ⟨fun h => absurd h.once (by decide +kernel), hstray, fun h => h.noThrow.1 hstray⟩

end Files

end Axona
