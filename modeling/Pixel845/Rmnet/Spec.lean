import Pixel845.Rmnet.Link

/-!
# What a link message says

The attributes that describe a link, as a tree: this is what `rtrmnet_ctl_newvnd` and `rtrmnet_ctl_changevnd` are to send, and
what the decoder of `rtrmnet_ctl_getvnd` is to find in it (`Described`).
-/

namespace Pixel845.Rmnet

/-- A name that `_rmnetctl_check_dev_name` accepts. -/
structure DevName where
  name : CString
  short : name.strlen < rmnetMaxStrLen

/-- The kind of the links. -/
def DevName.rmnet : DevName := ⟨.rmnet, by decide⟩

/-- An attribute with a number as its payload. -/
def numAttr (type w v : Nat) (hw : w < 16) : Rta := ⟨.ofNat type, leBytes w v, by simp; omega⟩

/-- An attribute with a name as its payload. -/
def nameAttr (type : Nat) (s : DevName) : Rta :=
  ⟨.ofNat type, s.name.bytes ++ [0], by
    have h1 := s.short
    simp only [CString.strlen, rmnetMaxStrLen] at h1
    rw [List.length_append, List.length_singleton]
    omega⟩

/-- The parameters of a link, which leave space for the attributes around them. -/
structure LinkParams where
  attrs : List Rta
  small : (Rta.encode attrs).length ≤ 100

/-- The MUX ID and, if there are any, the flags. -/
def vndParams (index : UInt8) (flagconfig : UInt32) : LinkParams where
  attrs :=
    numAttr rmnetctlIflaMuxId 2 index.toNat (by decide) ::
      if flagconfig = 0 then [] else [⟨.ofNat rmnetctlIflaFlags, iflaVlanFlags flagconfig flagconfig, by simp [iflaVlanFlags]⟩]
  small := by split <;> simp [Rta.len, numAttr, iflaVlanFlags, align4]

/-- The parameters in one attribute. -/
def oneParam (type : Nat) (params : List UInt8) (h : params.length ≤ 20) : LinkParams where
  attrs := [⟨.ofNat type, params, by omega⟩]
  small := by
    have hle : align4 (4 + params.length) < 4 + params.length + 4 := align4_lt _
    simp only [Rta.encode_cons, Rta.encode_nil, List.append_nil, Rta.bytes_length, Rta.len]
    omega

/-- `IFLA_INFO_DATA` with the parameters as its children. -/
def infoData (ps : LinkParams) : Rta := .nest (.ofNat iflaInfoData) ps.attrs (by have := ps.small; omega)

theorem infoData_len (ps : LinkParams) : align4 (infoData ps).len = 4 + (Rta.encode ps.attrs).length := by
  have h := Rta.encode_length_dvd ps.attrs
  exact align4_of_dvd (Nat.dvd_add (Nat.dvd_refl 4) h)

/-- The children of `IFLA_LINKINFO`. -/
def linkInfos (ps : LinkParams) : List Rta := [nameAttr iflaInfoKind .rmnet, infoData ps]

theorem linkInfos_length (ps : LinkParams) :
    (Rta.encode (linkInfos ps)).length = 16 + (Rta.encode ps.attrs).length := by
  have hk : align4 (nameAttr iflaInfoKind .rmnet).len = 12 := rfl
  simp only [linkInfos, Rta.encode_cons, Rta.encode_nil, List.length_append, Rta.bytes_length, hk, List.length_nil, infoData_len]
  omega

/-- `IFLA_LINKINFO` with its children. -/
def linkInfo (ps : LinkParams) : Rta :=
  .nest (.ofNat iflaLinkinfo) (linkInfos ps) (by have h1 := linkInfos_length ps; have h2 := ps.small; omega)

/-- The attributes of a link. -/
def linkAttrs (devindex : UInt32) (vndname : DevName) (ps : LinkParams) : List Rta :=
  [numAttr iflaLink 4 devindex.toNat (by decide), nameAttr iflaIfname vndname, linkInfo ps]

/-! ## A device, a link and their surroundings -/

/-- The name of a device. -/
def rmnetIpa0 : DevName := ⟨⟨[0x72, 0x6d, 0x6e, 0x65, 0x74, 0x5f, 0x69, 0x70, 0x61, 0x30], by decide⟩, by decide⟩

/-- The name of a link of the device. -/
def rmnetData0 : DevName := ⟨⟨[0x72, 0x6d, 0x6e, 0x65, 0x74, 0x5f, 0x64, 0x61, 0x74, 0x61, 0x30], by decide⟩, by decide⟩

/-- Surroundings in which every name has the index 7, the reply is given and all memory is zero. -/
def surroundings (reply : List UInt8) : Surroundings := ⟨Image.zero, 0, 0, fun _ => (7, 0), reply, Image.zero, .empty⟩

/-- The execution of a call in surroundings in which everything succeeds. -/
def Surroundings.events (e : Surroundings) (p : RmM Outcome) : Events := (p.trace e.answer).map fun o => ⟨o, e.answer o⟩

theorem Surroundings.exec (e : Surroundings) (p : RmM Outcome) : p.Exec (e.events p) (p.run e.answer) := Prog.exec_run _ _

end Pixel845.Rmnet
