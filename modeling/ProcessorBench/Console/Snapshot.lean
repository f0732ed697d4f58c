import ProcessorBench.Archive.Zip
import ProcessorBench.Console.Session

/-!
# Snapshots

The program works on a snapshot of the directory it is called in: an archive with the files. What it does to
them leaves no trace. Scripts in the archive are programs.
-/

namespace ProcessorBench.Snapshot

/-- Where the files of a snapshot are. -/
def workingDirectory : Location := ["work"]

/-- The variables that the program looks at. -/
def variableNames : List String := ["DIAMOND_JAVAC", "JAVA_HOME", "PATH", "TMPDIR"]

/-- Whether a file is a script that names its interpreter. -/
def isScript (content : Bytes) : Bool := content.take 2 = [0x23, 0x21]

/-- A disk without files of the user. -/
def emptyDisk : Disk :=
  let dirs := ["/tmp", "/work"].foldl (fun d dir => Disk.after (Disk.createDirAll ⟨dir⟩) d)
    ⟨.dir [], workingDirectory⟩
  Utility.install dirs

/-- Put a member of an archive on a disk: a directory, if its name ends with a slash. One that cannot be read
is left out. -/
def unpackMember (archive : ZipArchive) (d : Disk) (member : ArchiveMember) : Disk :=
  if member.name.toList.getLast? = some '/' then Disk.after (Disk.createDirAll ⟨member.name⟩) d
  else
    match archive.read? member with
    | some content => Disk.after (Disk.putFile ⟨member.name⟩ content (isScript content)) d
    | none => d

/-- The host for a snapshot. Without one there are no files. -/
def host (snapshot : Bytes) (environment : List (String × String)) : Host :=
  let disk := match ZipArchive.open? snapshot with
    | some archive => archive.members.foldl (unpackMember archive) emptyDisk
    | none => emptyDisk
  { disk, environment }

end ProcessorBench.Snapshot
