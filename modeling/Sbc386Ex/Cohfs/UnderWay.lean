import Sbc386Ex.Cohfs.Fsw

/-!
# Sbc386Ex.Cohfs.UnderWay

What the parts of an operation can raise once it is under way, whatever the image: that
they read or packed something impossible, that the file system is full, that a file is too
large. None of them touches the image file.
-/

namespace Sbc386Ex.Cohfs

open Raising

/-! ### What can be raised under way

Reading, packing, allocating and freeing raise these and no others, whatever the image. -/

def Late : Raise → Prop
  | .structError | .indexError | .unicodeError => True
  | .valueError msg => msg = notAByte
  | .osError msg => msg = full ∨ msg = tooLarge
  | .fileNotFound _ | .isADirectory _ | .fileExists _ => False

theorem late_u16 (b : List Byte) (o : Nat) : Only Late (u16 b o) := by
  unfold u16
  split
  · exact .ok
  · exact .error trivial

theorem late_i16 (b : List Byte) (o : Nat) : Only Late (i16 b o) :=
  (late_u16 b o).bind fun _ => .pure

theorem late_pdplong (b : List Byte) (o : Nat) : Only Late (pdplong b o) :=
  (late_u16 b o).bind fun _ => (late_u16 b (o + 2)).bind fun _ => .pure

theorem late_l3 (b : List Byte) (o : Nat) : Only Late (l3 b o) := by
  unfold l3
  split
  · exact .ok
  · exact .error trivial

theorem late_unpackIp (raw : List Byte) : Only Late (unpackIp raw) :=
  (late_u16 raw 0).bind fun _ => (late_i16 raw 2).bind fun _ => (late_u16 raw 4).bind fun _ =>
    (late_u16 raw 6).bind fun _ => (late_pdplong raw 8).bind fun _ =>
      (Only.mapM (fun i => late_l3 raw (12 + 3 * i)) _).bind fun _ => .pure

section Reading

variable (d : Image)

theorem late_indirect (level : Nat) : ∀ a, Only Late (d.indirect a level) := by
  induction level with
  | zero =>
      intro a
      rw [Image.indirect]
      exact .ok
  | succ level ih =>
      intro a
      rw [Image.indirect]
      refine .ite .ok (.bind (.mapM (fun i => late_pdplong _ _) _) fun ptrs => ?_)
      exact .ite .pure (.bind (.mapM (fun p => .ite (ih p) .ok) _) fun _ => .pure)

theorem late_blocks (ip : Ip) : Only Late (d.blocks ip) :=
  .bind (.mapM (fun (a, level) => late_indirect d level a) _) fun _ => .pure

theorem late_data (ip : Ip) : Only Late (d.data ip) :=
  .ite .ok ((late_blocks d ip).bind fun _ => .pure)

theorem late_inodeData (ino : Nat) : Only Late (d.inodeData ino) :=
  .bind ((late_unpackIp _).bind fun _ => (late_pdplong _ _).bind fun _ => .pure)
    fun ip => late_data d ip.toIp

theorem late_ind (level : Nat) : ∀ a, Only Late (Fsw.ind d a level) := by
  induction level with
  | zero =>
      intro a
      rw [Fsw.ind]
      exact .ok
  | succ level ih =>
      intro a
      rw [Fsw.ind]
      refine .ite .ok (.bind (.mapM (fun i => ?_) _) fun _ => .pure)
      exact (late_pdplong _ _).bind fun p => .ite (ih p) .pure

theorem late_fileBlocks (ip : Ip) : Only Late (Fsw.blocks d ip) :=
  .bind (.mapM (fun (a, level) => late_ind d level a) _) fun _ => .pure

end Reading

theorem late_freeEntry (b : List Byte) (os : List Nat) : Only Late (Fsw.freeEntry b os) := by
  induction os with
  | nil => exact .ok
  | cons o os ih => exact (late_u16 b o).bind fun ino => .ite .pure ih

section Packing

theorem late_packH (v : Int) : Only Late (packH v) := by
  unfold packH
  exact .ite .ok (.error trivial)

theorem late_packh (v : Int) : Only Late (packh v) := by
  unfold packh
  exact .ite .ok (.error trivial)

theorem late_packInto (b : List Byte) (o : Nat) (new : List Byte) :
    Only Late (packInto b o new) := .ite .ok (.error trivial)

theorem late_putpdp (b : List Byte) (o : Nat) (v : Int) : Only Late (putpdp b o v) :=
  late_packInto _ _ _

theorem late_putl3 (b : List Byte) (o : Nat) (v : Nat) : Only Late (putl3 b o v) :=
  .ite .ok (.error trivial)

theorem late_getItem {α : Type} (l : List α) (i : Int) : Only Late (getItem l i) := by
  unfold getItem
  split
  · exact .ok
  · exact .error trivial

theorem late_setItem {α : Type} (l : List α) (i : Int) (a : α) : Only Late (setItem l i a) := by
  unfold setItem
  split
  · exact .ok
  · exact .error trivial

theorem late_encode (t : Text) : Only Late (encode t) := by
  refine .bind (.mapM (fun c => ?_) _) fun _ => .pure
  exact .ite .ok (.ite .ok (.ite (.error trivial) (.ite .ok .ok)))

theorem late_linkBlock (fs : Fsw) : Only Late fs.linkBlock :=
  (late_packh _).bind fun _ => (late_packInto _ _ _).bind fun b =>
    .foldlM (fun _ _ => (late_getItem _ _).bind fun _ => late_putpdp _ _ _) _ b

theorem late_packIp (ip : Ip) (t : Int) : Only Late (Fsw.packIp ip t) :=
  (late_packH _).bind fun _ => (late_packh _).bind fun _ => (late_packH _).bind fun _ =>
    (late_packH _).bind fun _ => (late_packInto _ _ _).bind fun _ => (late_putpdp _ _ _).bind fun raw =>
      .bind (.foldlM (fun _ _ => late_putl3 _ _ _) _ raw) fun _ => (late_putpdp _ _ _).bind fun _ =>
        (late_putpdp _ _ _).bind fun _ => late_putpdp _ _ _

theorem late_dirEntry (name : Text) (ino : Nat) : Only Late (Fsw.dirEntry name ino) :=
  (late_packH _).bind fun _ => (late_encode name).bind fun _ => .pure

theorem late_entered (d ent : List Byte) : Only Late (Fsw.entered d ent) := by
  refine (late_freeEntry d _).bind fun slot => ?_
  split
  · exact .pure
  · exact .pure

theorem late_dots (ino parent : Nat) : Only Late (Fsw.dots ino parent) :=
  (late_packH _).bind fun _ => (late_packH _).bind fun _ => .pure

end Packing

section Writing

variable {f : List Byte}

/-- `p` leaves the image file alone, and raises no more than that. -/
abbrev UnderWay {α : Type} (f : List Byte) (p : Op α) : Prop :=
  Within Late (fun fs => fs.file = f) p

theorem underWay_now : UnderWay f Fsw.now :=
  .bind .get fun _ => .bind (.modify fun _ h => h) fun _ => .pure

theorem underWay_wblock (n : Nat) (data : List Byte) : UnderWay f (Fsw.wblock n data) :=
  .modify fun _ h => h

theorem underWay_iread (ino : Nat) : UnderWay f (Fsw.iread ino) :=
  .reading fun _ => late_unpackIp _

theorem underWay_inodeData (ino : Nat) :
    UnderWay f (reading fun fs => fs.disk.inodeData ino) :=
  .reading fun fs => late_inodeData fs.disk ino

theorem underWay_iwrite (ino : Nat) (ip : Ip) : UnderWay f (Fsw.iwrite ino ip) :=
  underWay_now.bind fun t => .bind (.reading fun _ => late_packIp ip t) fun _ =>
    .modify fun _ h => h

theorem underWay_loadList (bno : Nat) : UnderWay f (Fsw.loadList bno) :=
  .bind (.reading fun _ => late_i16 _ _) fun _ => .bind (.modify fun _ h => h) fun _ =>
    .bind (.reading fun _ => .mapM (fun _ => late_pdplong _ _) _) fun _ => .modify fun _ h => h

theorem underWay_balloc : UnderWay f Fsw.balloc :=
  .bind .get fun _ => .bind (.raiseIf (.inl rfl)) fun _ => .bind (.modify fun _ h => h) fun _ =>
    .bind (.reading fun _ => late_getItem _ _) fun bno => .bind (.raiseIf (.inl rfl)) fun _ =>
      .bind .get fun _ => .bind (.onlyIf (underWay_loadList bno)) fun _ =>
        .bind (.modify fun _ h => h) fun _ => (underWay_wblock bno []).bind fun _ => .pure

theorem underWay_bfree (bno : Nat) : UnderWay f (Fsw.bfree bno) := by
  have hstore : UnderWay f (Fsw.storeList bno) :=
    .bind (.reading late_linkBlock) fun b => (underWay_wblock bno b).bind fun _ =>
      .modify fun _ h => h
  exact .bind .get fun _ => .bind (.onlyIf hstore) fun _ =>
    .bind (.reading fun _ => late_setItem _ _ _) fun _ => .modify fun _ h => h

theorem underWay_truncate (ip : Ip) : UnderWay f (Fsw.truncate ip) :=
  .bind (.reading fun _ => late_fileBlocks _ ip) fun _ => .bind (.forM underWay_bfree _) fun _ =>
    .pure

theorem underWay_indirect (ptrs : List Nat) : UnderWay f (Fsw.indirect ptrs) :=
  underWay_balloc.bind fun bno =>
    .bind (.reading fun _ => .foldlM (fun _ _ => late_putpdp _ _ _) _ _) fun b =>
      (underWay_wblock bno b).bind fun _ => .pure

theorem underWay_setdata (ip : Ip) (data : List Byte) : UnderWay f (Fsw.setdata ip data) := by
  have hblock : ∀ piece, UnderWay f (Fsw.writeBlock piece) := fun piece =>
    underWay_balloc.bind fun b => (underWay_wblock b piece).bind fun _ => .pure
  have hsingle : ∀ ip rest, UnderWay f (Fsw.setSingle ip rest) := fun _ _ =>
    .ite .pure ((underWay_indirect _).bind fun _ => .pure)
  have hdouble : ∀ ip rest, UnderWay f (Fsw.setDouble ip rest) := fun _ _ =>
    .ite .pure (.bind (.mapM underWay_indirect _) fun _ => (underWay_indirect _).bind fun _ => .pure)
  exact (underWay_truncate ip).bind fun _ => .bind (.mapM hblock _) fun _ =>
    (hsingle _ _).bind fun _ => (hdouble _ _).bind fun _ => .bind (.raiseIf (.inr rfl)) fun _ =>
      .pure

theorem underWay_dirent (dino : Nat) (name : Text) (ino : Nat) :
    UnderWay f (Fsw.dirent dino name ino) := by
  have hput : ∀ ip d, UnderWay f (do let ip ← Fsw.setdata ip d; Fsw.iwrite dino ip) :=
    fun ip d => (underWay_setdata ip d).bind fun ip => underWay_iwrite dino ip
  exact (underWay_iread dino).bind fun ip => (underWay_inodeData dino).bind fun d =>
    .bind (.reading fun _ => late_dirEntry name ino) fun ent =>
      .bind (.reading fun _ => late_entered d ent) fun d => hput ip d

theorem underWay_setByte (o : Nat) (v : Int) : UnderWay f (Fsw.setByte o v) :=
  .bind (.reading fun _ => .ite (late_setItem _ _ _) (.error rfl)) fun _ => .modify fun _ h => h

theorem underWay_unlink (ip : Ip) : UnderWay f (Fsw.unlink ip) :=
  .ite (.bind (underWay_truncate _) fun _ => .bind (.modify fun _ h => h) fun _ => .pure) .pure

end Writing

end Sbc386Ex.Cohfs
