import CrossAsm.Proofs.Layout.Following
import CrossAsm.Proofs.Nesting.Following
import CrossAsm.Proofs.Parser.Superset

/-! The CMOS processor as a target for NMOS programs: what is compiled for the NMOS processor is
compiled for the CMOS one as the same image. -/

namespace CrossAsm

variable {inputs : List Input} {session session' : Session} {image : Image}

/-- A session that is aimed at the CMOS processor follows the session that it was. -/
theorem Session.follows_cmos (session : Session) : session.Follows { session with cpu := .cmos } :=
  ⟨Cpu.cmos_covers _, rfl, .refl _⟩

/-- What is compiled for the NMOS processor is compiled for the CMOS one, and to the same image,
unless the source has an `inc` or `dec` of the word `a`. -/
theorem compile_superset (nmos : session.cpu = .nmos) (leaves : LeavesAccumulator inputs)
    (compiled : compile inputs session = .ok image session') :
    ∃ later, compile inputs { session with cpu := .cmos } = .ok image later := by
  -- The stages one after another, each in a session that follows that of the first compilation.
  simp only [compile, bind_eq_ok, Session.ask_eq_ok] at compiled ⊢
  obtain ⟨stmts, _, ⟨scanned, rfl⟩, nested, middle, nests, flat, last, resolves, laid, rfl⟩ :=
    compiled
  rw [nmos] at scanned
  have scanned' : scan .cmos inputs = .ok stmts := scan_superset scanned (leaves stmts scanned)
  obtain ⟨middle', nests', follows⟩ := nest_follows session.follows_cmos nests
  obtain ⟨last', resolves', follows⟩ := resolve_together nested follows resolves
  have laid' : layout last' flat = .ok image := layout_follows follows laid
  exact ⟨last', stmts, _, ⟨scanned', rfl⟩, nested, middle', nests', flat, last', resolves', laid',
    rfl⟩

/-- A program with operands that the CMOS processor has more modes for. -/
def pointing : List Input :=
  [.directive (.romOrg 0x8000 none) default,
   .code ⟨"", 0, "byte x : 0x20\nfunction main() \x7b\ninc x\nasl a\nbit x\njmp (x)\n\x7d\n"⟩]

/-- Whether a statement is an `inc` or `dec` of the word `a`. -/
def Stmt.stepsBareA : Stmt → Bool
  | .item i => i.stepsBareA
  | .function _ | .conditional _ => false

/-- The program is compiled for either processor, to the same bytes. -/
theorem pointing_superset :
    LeavesAccumulator pointing ∧ ∃ image session' later,
      compile pointing { cpu := .nmos } = .ok image session' ∧
      compile pointing { cpu := .cmos } = .ok image later ∧
      (image.banks.flatMap BankImage.regions).map RegionImage.bytes =
        [[0xE6, 0x20, 0x0A, 0x24, 0x20, 0x6C, 0x20, 0x00, 0x60]] := by
  -- The program is compiled for the first processor, and the theorem does the rest.
  have leaves : LeavesAccumulator pointing := by
    have check : ((scan .nmos pointing).toOption.all fun stmts =>
        stmts.all fun stmt => !stmt.stepsBareA) = true := by
      decide +kernel
    intro stmts scanned item mem
    rw [scanned] at check
    simpa [Stmt.stepsBareA] using List.all_eq_true.1 check _ mem
  have compiles : succeedsWith (fun image _ =>
      (image.banks.flatMap BankImage.regions).map RegionImage.bytes =
        [[0xE6, 0x20, 0x0A, 0x24, 0x20, 0x6C, 0x20, 0x00, 0x60]])
      (compile pointing { cpu := .nmos }) = true := by
    decide +kernel
  obtain ⟨image, session', compiled, bytes⟩ := exists_of_succeedsWith compiles
  obtain ⟨later, compiled'⟩ := compile_superset rfl leaves compiled
  exact ⟨leaves, image, session', later, compiled, compiled', of_decide_eq_true bytes⟩

end CrossAsm
