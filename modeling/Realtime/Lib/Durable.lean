import Mathlib.Data.List.Basic
import Mathlib.Data.Option.Basic

/-!
# Files and what a crash leaves of them

A directory entry shows one file, but until the directory is synced a crash may
bring back what a rename or a removal has replaced. A file keeps the bytes up to
its synced length; behind them a crash may leave anything.
-/

namespace Lib.Durable

variable {α : Type*}

structure Slot (α : Type*) where
  now : Option α
  lost : List (Option α)

namespace Slot

def empty : Slot α := ⟨none, []⟩

/-- What a crash may leave in the entry. -/
def images (s : Slot α) : List (Option α) := s.now :: s.lost

/-- Rename a file over the entry. -/
def put (v : α) (s : Slot α) : Slot α := ⟨some v, s.images⟩

def remove (s : Slot α) : Slot α := ⟨none, s.images⟩

/-- The entry once its directory is synced. -/
def sync (s : Slot α) : Slot α := ⟨s.now, []⟩

/-- Write through to the file the entry shows. -/
def modify (f : α → α) (s : Slot α) : Slot α := ⟨s.now.map f, s.lost⟩

@[simp] theorem images_put (v : α) (s : Slot α) : (s.put v).images = some v :: s.images := rfl

@[simp] theorem images_remove (s : Slot α) : s.remove.images = none :: s.images := rfl

@[simp] theorem images_sync (s : Slot α) : s.sync.images = [s.now] := rfl

@[simp] theorem images_modify (f : α → α) (s : Slot α) :
    (s.modify f).images = s.now.map f :: s.lost := rfl

theorem now_mem_images (s : Slot α) : s.now ∈ s.images := List.mem_cons_self

/-- The entry shows the same as before, and a crash may leave no more of it. -/
structure Settles (s s' : Slot α) : Prop where
  now : s'.now = s.now
  images : ∀ image ∈ s'.images, image ∈ s.images

theorem Settles.refl (s : Slot α) : s.Settles s := ⟨rfl, fun _ h => h⟩

theorem Settles.trans {s s' s'' : Slot α} (h : s.Settles s') (h' : s'.Settles s'') :
    s.Settles s'' :=
  ⟨h'.now.trans h.now, fun image himage => h.images image (h'.images image himage)⟩

theorem settles_sync (s : Slot α) : s.Settles s.sync := by
  refine ⟨rfl, fun image himage => ?_⟩
  rw [images_sync, List.mem_singleton] at himage
  exact himage ▸ now_mem_images s

/-- The entry after a crash shows one of its images, as far as that survives. -/
def Survives (survives : α → α → Prop) (s s' : Slot α) : Prop :=
  s'.lost = [] ∧ ∃ image ∈ s.images, Option.Rel survives image s'.now

variable {survives : α → α → Prop} {s s' : Slot α}

/-- What an entry shows after a crash has survived it. -/
theorem Survives.exists_image (h : s.Survives survives s') {v' : α} (hv : some v' ∈ s'.images) :
    ∃ v, some v ∈ s.images ∧ survives v v' := by
  obtain ⟨hlost, image, himage, hrel⟩ := h
  rw [images, hlost, List.mem_singleton] at hv
  rw [← hv] at hrel
  cases hrel with
  | some hsurvives => exact ⟨_, himage, hsurvives⟩

/-- A file that survives unchanged was there before. -/
theorem Survives.mem_images (h : s.Survives Eq s') : ∀ image ∈ s'.images, image ∈ s.images := by
  obtain ⟨now', lost'⟩ := s'
  obtain ⟨hlost, image, himage, hrel⟩ := h
  intro image' himage'
  rw [Slot.images, show lost' = [] from hlost, List.mem_singleton] at himage'
  cases hrel with
  | some heq =>
      rw [himage', ← heq]
      exact himage
  | none =>
      rw [himage']
      exact himage

/-- An entry that cannot be empty is not. -/
theorem Survives.isSome (h : s.Survives survives s') (hsome : none ∉ s.images) :
    none ∉ s'.images := by
  obtain ⟨hlost, image, himage, hrel⟩ := h
  intro hnone
  rw [images, hlost, List.mem_singleton] at hnone
  rw [← hnone] at hrel
  cases hrel with
  | none => exact hsome himage

end Slot

structure File where
  content : List UInt8
  /-- The bytes a crash cannot touch. -/
  synced : Nat

namespace File

def append (bytes : List UInt8) (f : File) : File := { f with content := f.content ++ bytes }

/-- `set_len`, which cuts the file or pads it with zeros. -/
def resize (length : Nat) (f : File) : File where
  content := f.content.take length ++ List.replicate (length - f.content.length) 0
  synced := min f.synced length

def sync (f : File) : File := { f with synced := f.content.length }

/-- A file that was written and synced before it got its name. -/
def ofBytes (bytes : List UInt8) : File := ⟨bytes, bytes.length⟩

/-- The part a crash cannot touch. -/
def kept (f : File) : List UInt8 := f.content.take f.synced

def Survives (f f' : File) : Prop := f.kept <+: f'.content ∧ f'.synced = f'.content.length

@[simp] theorem kept_sync (f : File) : f.sync.kept = f.content := List.take_length

@[simp] theorem kept_ofBytes (bytes : List UInt8) : (ofBytes bytes).kept = bytes :=
  List.take_length

theorem kept_isPrefix_content (f : File) : f.kept <+: f.content := List.take_prefix _ _

theorem kept_isPrefix_append (bytes : List UInt8) (f : File) :
    f.kept <+: (f.append bytes).kept := by
  unfold kept append
  rw [List.take_append]
  exact List.prefix_append _ _

/-- Cutting a file keeps what lies before the cut. -/
theorem isPrefix_kept_resize {bytes : List UInt8} {f : File} {length : Nat}
    (h : bytes <+: f.kept) (hlength : bytes.length ≤ length) :
    bytes <+: (f.resize length).kept := by
  obtain ⟨rest, hrest⟩ := h
  have hle : bytes.length ≤ f.synced := by
    have := congrArg List.length hrest
    simp only [kept, List.length_append, List.length_take] at this
    omega
  have hcontent : bytes <+: f.content := by
    refine (List.prefix_append bytes rest).trans ?_
    rw [hrest]
    exact kept_isPrefix_content f
  have hcut : bytes <+: f.content.take length :=
    List.prefix_take_iff.mpr ⟨hcontent, hlength⟩
  apply List.prefix_take_iff.mpr
  refine ⟨hcut.trans (List.prefix_append _ _), ?_⟩
  show bytes.length ≤ min f.synced length
  omega

theorem content_resize {f : File} {bytes tail : List UInt8} (h : f.content = bytes ++ tail) :
    (f.resize bytes.length).content = bytes := by
  have hle : bytes.length - f.content.length = 0 := by
    rw [h, List.length_append]
    omega
  show f.content.take bytes.length ++ List.replicate (bytes.length - f.content.length) 0 = bytes
  rw [hle, h, List.take_left, List.replicate_zero, List.append_nil]

theorem kept_of_survives {f f' : File} (h : f.Survives f') : f.kept <+: f'.kept := by
  obtain ⟨hkept, hsynced⟩ := h
  show f.kept <+: f'.content.take f'.synced
  rw [hsynced, List.take_length]
  exact hkept

end File

end Lib.Durable
