import DwarfUnits.Container.Elf
import DwarfUnits.Container.MachO
import DwarfUnits.Container.SectionMap

/-! A parser for ELF and Mach-O files, told apart by the magic number at their start. Nothing that
is done with a container depends on the parser that opened it. -/
namespace DwarfUnits.Container

/-- Bytes that have to be there before a magic number is looked at. -/
def magicSize : Nat := 16

/-- Open a container. A Mach-O file for several machines is known but not supported. -/
def read : Parser := fun bytes =>
  if bytes.size < magicSize then .error .noMagic
  else
    match (bytes.extract 0 5).data.toList with
    | [0x7f, 0x45, 0x4c, 0x46, 1] => Elf.read Elf.shape32 bytes
    | [0x7f, 0x45, 0x4c, 0x46, 2] => Elf.read Elf.shape64 bytes
    | [0xfe, 0xed, 0xfa, 0xce, _] => MachO.read MachO.shape32 .big bytes
    | [0xce, 0xfa, 0xed, 0xfe, _] => MachO.read MachO.shape32 .little bytes
    | [0xfe, 0xed, 0xfa, 0xcf, _] => MachO.read MachO.shape64 .big bytes
    | [0xcf, 0xfa, 0xed, 0xfe, _] => MachO.read MachO.shape64 .little bytes
    | [0xca, 0xfe, 0xba, 0xbe, _] | [0xca, 0xfe, 0xba, 0xbf, _] => .error .unsupportedFormat
    | _ => .error .unknownMagic

def SectionMap.ofBytes : ByteArray → Except Error SectionMap × List Event := parse read

end DwarfUnits.Container
